import ILDump.Proofs.Pipeline.Endings
import ILDump.Proofs.Pipeline.Timeline

/-!
# What is left at a destination

The stages of a combined pipeline write to the same files one after the other, and the
disassembler comes last. A file whose last writer is the disassembler holds the listing of
the file that the last record with this destination is about, whatever was there before.
-/

namespace ILDump.Pipeline

variable {ρ : Type}

/-! ### Calls -/

/-- A call of a stage, and whether the stage came back from it. -/
structure Call where
  stage : Nat
  source : Path
  destination : Path
  cameBack : Bool
deriving DecidableEq, Repr

def Event.call? : Event → Option Call
  | .called i source destination r => some ⟨i, source, destination, r.isOk⟩
  | _ => none

def calls (trace : List Event) : List Call :=
  trace.filterMap Event.call?

/-- The record of a file that a last stage is done with. -/
def Call.record? (last : Nat) (call : Call) : Option Record :=
  if call.stage = last ∧ call.cameBack = true then some ⟨call.source, call.destination⟩ else none

def Event.record? (last : Nat) (e : Event) : Option Record :=
  e.call?.bind (Call.record? last)

/-- The stages that came back from calls with destinations at a place. -/
def writers (here : Place) (trace : List Event) (p : Place) : List Nat :=
  (calls trace).filterMap fun call =>
    if call.destination.place here = p ∧ call.cameBack = true then some call.stage else none

theorem calls_append (trace trace' : List Event) :
    calls (trace ++ trace') = calls trace ++ calls trace' :=
  List.filterMap_append

/-! ### The disassembler comes last -/

theorem Combined.getLast?_stageOrder (c : Combined ρ) :
    (stageOrder c.stages).getLast? = some c.disassembler := by
  obtain ⟨hperm, hascending⟩ := isRankOrder_stageOrder c.stages
  have hnodup := nodup_stageOrder c.stages
  have hmem : c.disassembler ∈ stageOrder c.stages := by
    rw [hperm.mem_iff, List.mem_range]
    exact (List.getElem?_eq_some_iff.mp c.disassembler_eq).1
  obtain ⟨done, later, hsplit⟩ := List.append_of_mem hmem
  rw [hsplit] at hperm hascending hnodup ⊢
  cases later with
  | nil => exact List.getLast?_concat
  | cons j later =>
    exfalso
    -- another stage behind the disassembler would have a rank as high
    have hj : j < c.stages.length := by
      rw [← List.mem_range, ← hperm.mem_iff]
      simp
    have hne : j ≠ c.disassembler := by
      rintro rfl
      simp [List.nodup_append] at hnodup
    have hlower := c.lower j _ (List.getElem?_eq_getElem hj) hne
    have hpair := (List.pairwise_cons.mp (List.pairwise_append.mp hascending).2.1).1 j (by simp)
    have hrank :
        ((Pipeline.disassemblerWith c.decoders c.order).onSecond : Stage (ρ × Workspace)).rank =
          Disassembler.stageRank := rfl
    rcases hpair _ _ c.disassembler_eq (List.getElem?_eq_getElem hj) with hlt | ⟨heq, -⟩ <;> omega

/-! ### Records are calls that the last stage came back from -/

theorem Event.record?_called_ok (last i : Nat) (source destination : Path) :
    (Event.called i source destination (.ok ())).record? last =
      if i = last then some ⟨source, destination⟩ else none := by
  simp [record?, call?, Call.record?, Except.isOk, Except.toBool]

theorem Event.record?_called_error (last i : Nat) (source destination : Path) (f : Failure) :
    (Event.called i source destination (.error f)).record? last = none := by
  simp [record?, call?, Call.record?, Except.isOk, Except.toBool]

theorem filterMap_record?_through {last : Nat} {done : List Nat} (hdone : last ∉ done)
    (source destination : Path) :
    (through done source destination).filterMap (Event.record? last) = [] := by
  refine List.filterMap_eq_nil_iff.mpr fun e he => ?_
  rcases List.mem_append.mp he with he | he
  · rcases List.mem_pair.mp he with rfl | rfl <;> rfl
  · obtain ⟨i, hi, rfl⟩ := List.mem_map.mp he
    have hne : i ≠ last := fun heq => hdone (heq ▸ hi)
    rw [Event.record?_called_ok, if_neg hne]

/-- Stages in front of another are not the last one. -/
theorem last_not_mem_of_split {lower done later : List Nat} {last i : Nat}
    (hnodup : (lower ++ [last]).Nodup) (hsplit : lower ++ [last] = done ++ i :: later) :
    last ∉ done := by
  intro hmem
  have hlast : last ∈ i :: later := by
    have hgetLast : (done ++ i :: later).getLast? = some last := by
      rw [← hsplit, List.getLast?_concat]
    rw [List.getLast?_append_of_ne_nil _ (by simp)] at hgetLast
    exact List.mem_of_getLast? hgetLast
  rw [hsplit] at hnodup
  exact (List.nodup_append.mp hnodup).2.2 last hmem last hlast rfl

/-- A run that does not end early gives a record of every call that the last stage came back
    from. -/
theorem records_of_conforms {plan : Plan} {order : List Nat} {inputs : List Path} {last : Nat}
    {events : List Event} {records : List Record} (hlast : order.getLast? = some last)
    (hnodup : order.Nodup) (h : Conforms plan order inputs events (.ok records)) :
    (calls events).filterMap (Call.record? last) = records := by
  obtain ⟨lower, rfl⟩ := List.getLast?_eq_some_iff.mp hlast
  have hlower : last ∉ lower := last_not_mem_of_split hnodup rfl
  have hdispatch : ∀ c, Gives (Event.record? last) (fun record? => record?.toList.map id)
      (Dispatch plan (lower ++ [last]) c) := by
    intro c events record? h
    generalize hresult : Except.ok record? = result at h
    cases h with
    | unchecked => cases hresult
    | homeless => cases hresult
    | failed _ _ => cases hresult
    | @rejected text r =>
      cases r with
      | error f => cases hresult
      | ok _ =>
        cases hresult
        rfl
    | @toolMissing done later i d text r hsplit =>
      have hdone : last ∉ done := last_not_mem_of_split hnodup hsplit
      cases r with
      | error f => cases hresult
      | ok _ =>
        cases hresult
        rw [List.filterMap_append, filterMap_record?_through hdone,
          List.filterMap_cons_none (Event.record?_called_error ..)]
        rfl
    | @completed r =>
      cases r with
      | error f => cases hresult
      | ok _ =>
        cases hresult
        have hcall := Event.record?_called_ok last last c.path (plan.destination c)
        rw [if_pos rfl] at hcall
        rw [List.filterMap_append, through_concat, List.filterMap_append,
          filterMap_record?_through hlower, List.filterMap_cons_some hcall]
        rfl
  have hlooks : ∀ e : Event, e.isLook = true → e.record? last = none := by
    intro e he
    cases e with
    | called => cases he
    | _ => rfl
  have hgives := Gives.conforms hlooks hdispatch (fun _ _ => rfl) inputs events records h
  rw [calls, List.filterMap_filterMap]
  exact hgives.trans (List.map_id records)

/-! ### The last writer -/

/-- The last record with a destination at a place. -/
def lastRecord? (here : Place) (records : List Record) (p : Place) : Option Record :=
  (records.filter fun r => r.destination.place here = p).getLast?

/-- The last call with a destination at a place, if it is one that the last stage came back
    from, is the one of the last record there. -/
theorem exists_last_call {here p : Place} {trace : List Event} {last : Nat}
    (hwriter : (writers here trace p).getLast? = some last) :
    ∃ before source destination after,
      trace = before ++ .called last source destination (.ok ()) :: after ∧
      destination.place here = p ∧ writers here after p = [] ∧
      lastRecord? here ((calls trace).filterMap (Call.record? last)) p =
        some ⟨source, destination⟩ := by
  obtain ⟨ys, hys⟩ := List.getLast?_eq_some_iff.mp hwriter
  rw [writers, calls, List.filterMap_filterMap, List.filterMap_eq_append_iff] at hys
  obtain ⟨before, rest, rfl, -, hrest⟩ := hys
  obtain ⟨between, e, after, rfl, -, he, hafter⟩ := List.filterMap_eq_cons_iff.mp hrest
  rw [← List.filterMap_filterMap] at hafter
  cases e with
  | called i source destination r =>
    cases r with
    | error f => simp [Event.call?, Except.isOk, Except.toBool] at he
    | ok u =>
      simp only [Event.call?, Option.bind_some, Option.ite_none_right_eq_some,
        Option.some.injEq] at he
      obtain ⟨⟨hplace, -⟩, rfl⟩ := he
      refine ⟨before ++ between, source, destination, after, by simp, hplace, hafter, ?_⟩
      have hlater : ((calls after).filterMap (Call.record? i)).filter
          (fun r => r.destination.place here = p) = [] := by
        refine List.filter_eq_nil_iff.mpr fun r hr => ?_
        obtain ⟨call, hcall, hr⟩ := List.mem_filterMap.mp hr
        have hidle := List.filterMap_eq_nil_iff.mp hafter call hcall
        simp only [Call.record?, Option.ite_none_right_eq_some, Option.some.injEq] at hr
        obtain ⟨⟨-, hback⟩, rfl⟩ := hr
        simpa [hback] using hidle
      have hcall : (calls [Event.called i source destination (.ok ())]).filterMap (Call.record? i) =
          [⟨source, destination⟩] := by
        simp [calls, Event.call?, Call.record?, Except.isOk, Except.toBool]
      have hsplit : before ++ (between ++ .called i source destination (.ok ()) :: after) =
          before ++ (between ++ ([.called i source destination (.ok ())] ++ after)) := rfl
      rw [hsplit, lastRecord?]
      simp only [calls_append, List.filterMap_append, List.filter_append, hlater, hcall,
        List.append_nil]
      rw [← List.append_assoc, List.filter_cons_of_pos (by simpa using hplace)]
      exact List.getLast?_concat
  | _ => simp [Event.call?] at he

/-! ### What is left -/

theorem Event.exists_call_of_writtenPlace? {here q : Place} {e : Event}
    (h : e.writtenPlace? here = some q) :
    ∃ call, e.call? = some call ∧ call.cameBack = true ∧ call.destination.place here = q := by
  cases e with
  | called i source destination r =>
    cases r with
    | error f => cases h
    | ok u => exact ⟨_, rfl, rfl, Option.some.inj h⟩
  | _ => cases h

/-- Contents change at most where a stage was called and came back. -/
theorem Timeline.grows_calls {c : Combined ρ} {here : Place} {events : List Event} {t t' : Tree}
    (h : Timeline c here events t t') :
    t.Grows (fun p => ∃ call ∈ calls events, call.cameBack = true ∧
      call.destination.place here = p) t' := by
  refine h.grows fun e he p hp => ?_
  obtain ⟨call, hcall, hback⟩ := e.exists_call_of_writtenPlace? hp
  exact ⟨call, List.mem_filterMap.mpr ⟨e, he, hcall⟩, hback⟩

theorem listing?_of_grows {changed : Place → Prop} {t t' : Tree} {here : Place}
    {decoders : Decoders} {order : MemberOrder} {source : Path} {content : Bytes}
    (hgrows : t.Grows changed t') (hproper : t.Proper) (hhere : t.node? here = some .directory)
    (hsource : ¬ changed (source.place here))
    (h : listing? decoders t here order source = some content) :
    listing? decoders t' here order source = some content := by
  unfold listing? at h ⊢
  cases hread : t.read here source with
  | error e => simp [hread] at h
  | ok bytes =>
    rw [hread] at h
    rw [hgrows.read hproper hhere hsource hread]
    exact h

theorem Combined.conforms (c : Combined ρ) (plan : Plan) (inputs : List Path)
    (start : ρ × Workspace) : Conforms plan (stageOrder c.stages) inputs (c.trace plan inputs start)
      (outcome (c.run plan inputs start)) :=
  (c.surroundings.observed_run plan c.stages inputs start).2

/-- A run that does not end early leaves a listing where the disassembler was the last to
    write. -/
theorem Combined.last_listing (c : Combined ρ) (plan : Plan) (inputs : List Path) {here : Place}
    {lo : Tree} {start : ρ × Workspace}
    (hstanding : Standing c here lo (c.trace plan inputs start)
      (stateAfter (c.run plan inputs start))) {records : List Record}
    (hrun : outcome (c.run plan inputs start) = .ok records)
    (hseparate : ∀ call ∈ calls (c.trace plan inputs start), ∀ r ∈ records,
      call.destination.place here ≠ r.source.place here)
    {p : Place} (hwriter : (writers here (c.trace plan inputs start) p).getLast? =
      some c.disassembler) :
    ∃ r content, lastRecord? here records p = some r ∧
      listing? c.decoders (stateAfter (c.run plan inputs start)).2.tree here c.order r.source =
        some content ∧
      (stateAfter (c.run plan inputs start)).2.tree.read here r.destination = .ok content := by
  have hcourse := c.conforms plan inputs start
  have hrecords : (calls (c.trace plan inputs start)).filterMap (Call.record? c.disassembler) =
      records :=
    records_of_conforms c.getLast?_stageOrder (nodup_stageOrder c.stages) (hrun ▸ hcourse)
  obtain ⟨before, source, destination, after, htrace, hplace, hafter, hlast⟩ :=
    exists_last_call hwriter
  rw [hrecords] at hlast
  obtain ⟨t, -, t', hmoment, hrest⟩ := Timeline.append_iff.mp (htrace ▸ hstanding.timeline)
  have hdoes : Disassembles c here t t' source destination (.ok ()) := by
    simpa [Answers] using hmoment.answers
  obtain ⟨content, hlisting, hwritten⟩ := hdoes.done rfl
  obtain ⟨-, -, x, hlookup⟩ := hwritten.step hmoment.proper hmoment.standing
  have hrecord : ⟨source, destination⟩ ∈ records :=
    List.mem_of_mem_filter (List.mem_of_getLast? hlast)
  -- the source is never written to
  have hkept : t.Grows (· ≠ source.place here)
      (stateAfter (c.run plan inputs start)).2.tree := by
    have hmore : Timeline c here (.called c.disassembler source destination (.ok ()) :: after)
        t (stateAfter (c.run plan inputs start)).2.tree := ⟨t', hmoment, hrest⟩
    refine hmore.grows_calls.mono ?_
    rintro _ ⟨call, hcall, -, rfl⟩
    have hmem : call ∈ calls (c.trace plan inputs start) := by
      rw [htrace, calls_append]
      exact List.mem_append_right _ hcall
    exact hseparate call hmem ⟨source, destination⟩ hrecord
  -- and the destination not any more
  have hleft : t'.Grows (· ≠ p) (stateAfter (c.run plan inputs start)).2.tree := by
    refine hrest.grows_calls.mono ?_
    rintro _ ⟨call, hcall, hback, rfl⟩ hp
    have hidle := List.filterMap_eq_nil_iff.mp hafter call hcall
    simp [hp, hback] at hidle
  refine ⟨⟨source, destination⟩, content, hlast, ?_, ?_⟩
  · exact listing?_of_grows hkept hmoment.proper hmoment.standing (by simp) hlisting
  · have hhere' : t'.node? here = some .directory :=
      hmoment.grows.directories _ hmoment.standing
    exact hleft.read hmoment.proper' hhere' (by simpa using hplace)
      (Tree.read_eq_ok_iff.mpr ⟨x, hlookup⟩)

end ILDump.Pipeline
