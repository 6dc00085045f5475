import ILDump.Proofs.Pipeline.Reruns

/-!
# Runs of combined pipelines

What the runs of a combined pipeline leave behind, and what a second run on the same inputs
makes of it. A record promises the listing of its source, as long as no later call at the same
destination was cut short: a stage that misses its tool skips the file, and what a stage in
front of it has written by then stays.
-/

namespace ILDump

namespace Pipeline

variable {ρ : Type}

/-! ### The law -/

def Event.accepted? : Event → Option Path
  | .validated path (.ok true) => some path
  | _ => none

/-- No stage was given a destination where a file was found to be an assembly. -/
def Separate (here : Place) (trace : List Event) : Prop :=
  ∀ path ∈ trace.filterMap Event.accepted?, ∀ call ∈ calls trace,
    call.destination.place here ≠ path.place here

instance (here : Place) (trace : List Event) : Decidable (Separate here trace) :=
  inferInstanceAs (Decidable (∀ path ∈ trace.filterMap Event.accepted?, ∀ call ∈ calls trace,
    call.destination.place here ≠ path.place here))

/-- A record whose listing is the last thing that was written at its destination. -/
structure LastWord (here : Place) (trace : List Event) (records : List Record) (last : Nat)
    (r : Record) : Prop where
  record : lastRecord? here records (r.destination.place here) = some r
  writer : (writers here trace (r.destination.place here)).getLast? = some last

/-- Events of runs whose destinations and assemblies are separate. -/
theorem Separate.fits {here : Place} {trace : List Event} (h : Separate here trace) :
    ∀ e ∈ trace, e.Fits here fun p => ∃ call ∈ calls trace, call.destination.place here = p := by
  intro e he
  cases e with
  | called i source destination r => exact ⟨_, List.mem_filterMap.mpr ⟨_, he, rfl⟩, rfl⟩
  | validated path r =>
    cases r with
    | error f => trivial
    | ok accepted =>
      cases accepted with
      | false => trivial
      | true =>
        rintro ⟨call, hcall, hplace⟩
        exact h path (List.mem_filterMap.mpr ⟨_, he, rfl⟩) call hcall hplace
  | _ => trivial

/-- A run from where another has ended makes a timeline, too. -/
theorem Standing.again {c : Combined ρ} {here : Place} {lo : Tree} {past : List Event}
    {final restart : ρ × Workspace} (h : Standing c here lo past final)
    (htree : restart.2.tree = final.2.tree) (hcwd : restart.2.cwd = here) (plan : Plan)
    (inputs : List Path) :
    Standing c here final.2.tree (c.trace plan inputs restart)
      (stateAfter (c.run plan inputs restart)) := by
  subst hcwd
  rw [← htree]
  refine c.standing_run plan inputs ?_ ?_ <;> rw [htree]
  · exact h.proper
  · exact h.standing

/-- Where a record was left, some stage wrote. -/
theorem writers_ne_nil_of_record {here : Place} {trace : List Event} {last : Nat} {r : Record}
    (hr : r ∈ (calls trace).filterMap (Call.record? last)) :
    writers here trace (r.destination.place here) ≠ [] := by
  intro hnone
  obtain ⟨call, hcall, hrecord⟩ := List.mem_filterMap.mp hr
  simp only [Call.record?, Option.ite_none_right_eq_some, Option.some.injEq] at hrecord
  obtain ⟨⟨-, hback⟩, rfl⟩ := hrecord
  have hidle := List.filterMap_eq_nil_iff.mp hnone call hcall
  simp [hback] at hidle

/-- When a stage came back from a file, the next one is called on it. -/
theorem Orderly.exists_next_call {order done later : List Nat} {trace before after : List Event}
    {i j : Nat} {source destination : Path} (h : Orderly order [] trace)
    (htrace : trace = before ++ .called j source destination (.ok ()) :: after)
    (horder : order = done ++ j :: i :: later) :
    ∃ result rest, after = .called i source destination result :: rest := by
  cases after with
  | nil =>
    have hopen := h.calm before _ (by simpa using htrace)
    simp [Event.isOpen] at hopen
  | cons e after =>
    have hallowed := h.allowed (before ++ [.called j source destination (.ok ())]) e after
      (by simpa using htrace)
    obtain ⟨result, rfl⟩ := hallowed.afterCall before done j (i :: later) source destination
      horder rfl
    exact ⟨result, after, rfl⟩

/-- Where every stage came back from every call, all last records have the last word: after
    another stage the next one would have been called at the same destination. -/
theorem Combined.lastWord_of_cameBack (c : Combined ρ) (plan : Plan) (inputs : List Path)
    (start : ρ × Workspace) {records : List Record}
    (hrun : outcome (c.run plan inputs start) = .ok records)
    (hback : ∀ call ∈ calls (c.trace plan inputs start), call.cameBack = true) {here : Place}
    {r : Record} (hr : lastRecord? here records (r.destination.place here) = some r) :
    LastWord here (c.trace plan inputs start) records c.disassembler r := by
  refine ⟨hr, ?_⟩
  have hcourse := hrun ▸ c.conforms plan inputs start
  have horderly := orderly_of_conforms (nodup_stageOrder c.stages) hcourse
  have hmem : r ∈ records := List.mem_of_mem_filter (List.mem_of_getLast? hr)
  rw [← records_of_conforms c.getLast?_stageOrder (nodup_stageOrder c.stages) hcourse] at hmem
  obtain ⟨j, hj⟩ : ∃ j, (writers here (c.trace plan inputs start)
      (r.destination.place here)).getLast? = some j :=
    ⟨_, List.getLast?_eq_some_getLast (writers_ne_nil_of_record hmem)⟩
  obtain ⟨before, source, destination, after, htrace, hplace, hafter, -⟩ := exists_last_call hj
  rw [hj, Option.some.injEq]
  obtain ⟨-, done, later, horder, -, -⟩ := (horderly.allowed before _ after htrace).call j _ _ _ rfl
  cases later with
  | nil =>
    have hlast := c.getLast?_stageOrder
    rw [horder, List.getLast?_concat] at hlast
    exact Option.some.inj hlast
  | cons i later =>
    obtain ⟨result, rest, rfl⟩ := horderly.exists_next_call htrace horder
    have hcall : ⟨i, source, destination, result.isOk⟩ ∈ calls (c.trace plan inputs start) := by
      rw [htrace]
      exact List.mem_filterMap.mpr ⟨.called i source destination result, by simp, rfl⟩
    have hidle := List.filterMap_eq_nil_iff.mp hafter ⟨i, source, destination, result.isOk⟩
      (List.mem_filterMap.mpr ⟨_, List.mem_cons_self, rfl⟩)
    have hback : result.isOk = true := hback _ hcall
    simp [hplace, hback] at hidle

/-! ### The checks of the program -/

theorem isAssemblyWith_leaves (file : Bytes → Except ContainerFault OpenedFile) (path : Path)
    (w : Workspace) :
    ∃ log, stateAfter (Disassembler.isAssemblyWith file path w) = { w with log } := by
  rw [Disassembler.isAssemblyWith_eq]
  cases w.read path with
  | error e => cases e <;> exact ⟨_, rfl⟩
  | ok bytes =>
    dsimp only
    cases ILDump.isAssemblyWith file bytes <;> exact ⟨_, rfl⟩

theorem stateAfter_onSecond {σ α : Type} (work : Work σ α) (st : ρ × σ) :
    stateAfter (work.onSecond st) = (st.1, stateAfter (work st.2)) := by
  unfold Work.onSecond
  cases work st.2 <;> rfl

/-- A file that names an assembly and has nothing else in it. -/
def emptyAssembly : Bytes :=
  List.flatten [
    [0x4D, 0x5A], .replicate 58 0, [64, 0, 0, 0, 0x50, 0x45], .replicate 18 0,
    [224, 0, 0, 0, 0x0B, 0x01], .replicate 82 0, [0x38, 0x01, 0, 0, 124, 0, 0, 0],
    .replicate 116 0, [164, 0, 0, 0, 72, 0, 0, 0], .replicate 8 0,
    [0x42, 0x53, 0x4A, 0x42], .replicate 14 0, [2, 0],
    [52, 0, 0, 0, 64, 0, 0, 0], Utf8.encode "#~", [0, 0],
    [116, 0, 0, 0, 8, 0, 0, 0], Utf8.encode "#Strings", [0, 0, 0, 0],
    .replicate 8 0, [1, 0, 0, 0, 1], .replicate 11 0, [1, 0, 0, 0, 1, 0, 0, 0],
    [0, 0, 1, 0, 0, 0, 0, 0, 0, 0], .replicate 18 0, [1, 0, 0, 0],
    [0], Utf8.encode "App", .replicate 4 0]

/-- Writes an assembly, if it can. -/
def assembling : Stage (List Bool × Workspace) where
  name := "assemble"
  rank := 5
  prepare := return fun _ destination => Work.onSecond do
    let _ ← Session.write destination emptyAssembly
    return

/-- Writes nothing, and comes back or misses its tool as its script says. -/
def scripted : Stage (List Bool × Workspace) where
  name := "script"
  rank := 10
  prepare := return fun _ _ st =>
    match st.1 with
    | false :: script => .error (.diagnosed .tool (.toolNotFound "tool" [])) (script, st.2)
    | _ :: script => .ok () (script, st.2)
    | [] => .ok () st

theorem writesOnlyThere_assembling {st st' : List Bool × Workspace}
    {work : StageWork (List Bool × Workspace)} (h : assembling.prepare st = .ok work st') :
    WritesOnlyThere work := by
  cases h
  intro source destination st
  have hwrite := write_eq destination emptyAssembly st.2
  cases hres : st.2.tree.write st.2.cwd destination emptyAssembly with
  | ok tree =>
    rw [hres] at hwrite
    simp only [Work.onSecond, bind_eq_of_ok hwrite]
    exact ⟨rfl, .inr ⟨_, Tree.write_eq_ok hres⟩⟩
  | error e =>
    rw [hres] at hwrite
    simp only [Work.onSecond, bind_eq_of_ok hwrite]
    exact ⟨rfl, .inl rfl⟩

theorem writesOnlyThere_scripted {st st' : List Bool × Workspace}
    {work : StageWork (List Bool × Workspace)} (h : scripted.prepare st = .ok work st') :
    WritesOnlyThere work := by
  cases h
  rintro source destination ⟨script, w⟩
  rcases script with _ | ⟨_ | _, script⟩
  · exact ⟨rfl, .inl rfl⟩
  · exact ⟨⟨_, rfl⟩, rfl, rfl⟩
  · exact ⟨rfl, .inl rfl⟩

theorem eq_of_front {last stage : Stage (List Bool × Workspace)} {i : Nat}
    (hi : [assembling, scripted, last][i]? = some stage) (hne : i ≠ 2) :
    stage = assembling ∨ stage = scripted := by
  rcases i with _ | _ | _ | i
  · exact .inl (Option.some.inj hi).symm
  · exact .inr (Option.some.inj hi).symm
  · exact absurd rfl hne
  · cases hi

/-- Both with the disassembler behind them, and the checks and reports of the program. -/
def threeStages : Combined (List Bool) where
  decoders := .standard
  isAssembly path := (Disassembler.isAssembly path).onSecond
  report line := (Session.print line).onSecond
  stages := [assembling, scripted, (Pipeline.disassembler .byName).onSecond]
  disassembler := 2
  order := .byName
  checkLeaves path st := by
    rw [stateAfter_onSecond]
    obtain ⟨log, hleaves⟩ := isAssemblyWith_leaves OpenedFile.ofBytes path st.2
    rw [Disassembler.isAssembly, hleaves]
    exact ⟨rfl, rfl⟩
  reportLeaves line st := ⟨rfl, rfl⟩
  disassembler_eq := rfl
  lower i stage hi hne := by
    rcases eq_of_front hi hne with rfl | rfl <;> decide
  prepareLeaves i stage hi hne := by
    rcases eq_of_front hi hne with rfl | rfl <;> exact fun st => ⟨rfl, rfl⟩
  writesThere i stage hi hne st work t h := by
    rcases eq_of_front hi hne with rfl | rfl
    · exact writesOnlyThere_assembling h
    · exact writesOnlyThere_scripted h

/-- A run of stages that are in the order of their ranks already. -/
def Surroundings.runInOrder {σ : Type} (s : Surroundings σ) (plan : Plan) (stages : List (Stage σ))
    (inputs : List Path) : Work σ (List Record) := do
  let ready ← Stage.prepareAll stages
  let records ← s.processAll plan ready inputs
  s.log .info ("Disassembled " ++ toString records.length ++ " assembly file(s)")
  return records

theorem Surroundings.run_eq_runInOrder {σ : Type} (s : Surroundings σ) (plan : Plan)
    {stages : List (Stage σ)} (h : stages.Pairwise fun a b => a.rank ≤ b.rank)
    (inputs : List Path) : s.run plan stages inputs = s.runInOrder plan stages inputs := by
  have hsorted : Stage.inRankOrder stages = stages :=
    List.mergeSort_of_pairwise (h.imp fun hle => decide_eq_true hle)
  rw [run, hsorted]
  rfl

/-- Where another run with the same script starts. -/
def again (plan : Plan) (inputs : List Path) (start : List Bool × Workspace) :
    List Bool × Workspace :=
  (start.1, (stateAfter (threeStages.run plan inputs start)).2)

/-- A record with the last word is kept: its destination holds the listing of its source. -/
theorem Combined.listing_of_lastWord (c : Combined ρ) (plan : Plan) (inputs : List Path)
    {here : Place} {lo : Tree} {start : ρ × Workspace}
    (hstanding : Standing c here lo (c.trace plan inputs start)
      (stateAfter (c.run plan inputs start))) {records : List Record}
    (hrun : outcome (c.run plan inputs start) = .ok records)
    (hseparate : ∀ call ∈ calls (c.trace plan inputs start), ∀ r ∈ records,
      call.destination.place here ≠ r.source.place here)
    {r : Record} (hr : LastWord here (c.trace plan inputs start) records c.disassembler r) :
    ∃ content,
      listing? c.decoders (stateAfter (c.run plan inputs start)).2.tree here c.order r.source =
        some content ∧
      (stateAfter (c.run plan inputs start)).2.tree.read here r.destination = .ok content := by
  obtain ⟨r', content, hr', hlisting, hread⟩ :=
    c.last_listing plan inputs hstanding hrun hseparate hr.writer
  obtain rfl := Option.some.inj (hr.record.symm.trans hr')
  exact ⟨content, hlisting, hread⟩

/-- If every stage comes back from every call, each destination holds the listing of the last
    record there. -/
theorem Combined.listing_of_cameBack (c : Combined ρ) (plan : Plan) (inputs : List Path)
    {start final : ρ × Workspace} (hproper : start.2.tree.Proper)
    (hhere : start.2.tree.node? start.2.cwd = some .directory) {records : List Record}
    (hrun : c.run plan inputs start = .ok records final)
    (hseparate : ∀ call ∈ calls (c.trace plan inputs start), ∀ r ∈ records,
      call.destination.place start.2.cwd ≠ r.source.place start.2.cwd)
    (hback : ∀ call ∈ calls (c.trace plan inputs start), call.cameBack = true) {r : Record}
    (hr : lastRecord? start.2.cwd records (r.destination.place start.2.cwd) = some r) :
    ∃ content,
      listing? c.decoders final.2.tree start.2.cwd c.order r.source = some content ∧
      final.2.tree.read start.2.cwd r.destination = .ok content := by
  have hrecords : outcome (c.run plan inputs start) = .ok records := by
    rw [hrun]
    rfl
  have hlisting := c.listing_of_lastWord plan inputs (c.standing_run plan inputs hproper hhere)
    hrecords hseparate (c.lastWord_of_cameBack plan inputs start hrecords hback hr)
  rwa [hrun] at hlisting

end Pipeline

end ILDump
