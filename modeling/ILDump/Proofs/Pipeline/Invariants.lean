import ILDump.Proofs.Pipeline.Protocol

/-!
# Invariants of runs

A property of what has happened so far and of the state that every single call keeps, to
the surroundings or to a stage, holds all along a run and at its end. `Invariant` lists the
calls, and `Invariant.run` is the induction over a run, done once.
-/

namespace ILDump.Pipeline

/-! ### Work that keeps a property -/

section Ensures

variable {σ α β : Type} {I : σ → Prop}

/-- Work that leads from good states to good states, however it ends, and whose results are
    good. -/
def Ensures (I : σ → Prop) (good : α → Prop) (work : Work σ α) : Prop :=
  ∀ st, I st → I (stateAfter (work st)) ∧ ∀ a, outcome (work st) = .ok a → good a

/-- Work that leads from good states to good states. -/
abbrev Keeps (I : σ → Prop) (work : Work σ α) : Prop :=
  Ensures I (fun _ => True) work

namespace Ensures

theorem of_keeps {work : Work σ α} (h : ∀ st, I st → I (stateAfter (work st))) : Keeps I work :=
  fun st hst => ⟨h st hst, fun _ _ => trivial⟩

theorem pure {good : α → Prop} {a : α} (ha : good a) : Ensures I good (Pure.pure a : Work σ α) := by
  refine fun st hst => ⟨hst, fun a' ha' => ?_⟩
  obtain rfl : a = a' := Except.ok.inj ha'
  exact ha

theorem throw {good : α → Prop} (f : Failure) :
    Ensures I good (MonadExcept.throw f : Work σ α) := by
  refine fun st hst => ⟨hst, fun a ha => ?_⟩
  cases ha

theorem bind {good : α → Prop} {good' : β → Prop} {work : Work σ α} {next : α → Work σ β}
    (hw : Ensures I good work) (hn : ∀ a, good a → Ensures I good' (next a)) :
    Ensures I good' (work >>= next) := by
  intro st hst
  obtain ⟨hafter, hgood⟩ := hw st hst
  simp only [Bind.bind, EStateM.bind]
  cases hres : work st with
  | ok a t =>
    rw [hres] at hafter hgood
    exact hn a (hgood a rfl) t hafter
  | error f t =>
    rw [hres] at hafter
    refine ⟨hafter, fun b hb => ?_⟩
    cases hb

theorem mono {good good' : α → Prop} {work : Work σ α} (hw : Ensures I good work)
    (h : ∀ a, good a → good' a) : Ensures I good' work :=
  fun st hst => ⟨(hw st hst).1, fun a ha => h a ((hw st hst).2 a ha)⟩

theorem unlessToolMissing {work : Work σ Unit} (hw : Keeps I work) :
    Keeps I work.unlessToolMissing := by
  refine of_keeps fun st hst => ?_
  have hafter := (hw st hst).1
  unfold Work.unlessToolMissing
  cases hres : work st with
  | ok a t =>
    rw [hres] at hafter
    exact hafter
  | error f t =>
    rw [hres] at hafter
    split <;> simp_all [stateAfter]

end Ensures

end Ensures

/-! ### Runs -/

/-- The record that a file leaves. -/
def Plan.record (plan : Plan) (c : Candidate) : Record :=
  ⟨c.path, plan.destination c⟩

section Run

variable {σ : Type} {I : σ → Prop} {good : Candidate → Prop}

/-- Surroundings that keep a property in a run, and in which the files found below the inputs
    are good ones. Directories are only made for these. -/
structure Surroundings.Sustain (s : Surroundings σ) (plan : Plan) (inputs : List Path)
    (I : σ → Prop) (good : Candidate → Prop) : Prop where
  probe : ∀ path ∈ inputs,
    Ensures I (fun kind? => kind? = some .file → good ⟨path, ⟨path, .file⟩⟩) (s.probe path)
  search : ∀ path ∈ inputs,
    Ensures I (fun found => ∀ q ∈ found, good ⟨q, ⟨path, .directory⟩⟩) (s.search path plan.pattern)
  isAssembly : ∀ path, Keeps I (s.isAssembly path)
  makeDirectories : ∀ c, good c → Keeps I (s.makeDirectories (plan.destination c).parent)
  log : ∀ level text, Keeps I (s.log level text)
  report : ∀ line, Keeps I (s.report line)

/-- Prepared work that keeps a property when it is called on good files. -/
def WorkKeeps (plan : Plan) (I : σ → Prop) (good : Candidate → Prop) (work : StageWork σ) : Prop :=
  ∀ c, good c → Keeps I (work c.path (plan.destination c))

/-- The records of some good files. -/
def RecordsOf (plan : Plan) (good : Candidate → Prop) (records : List Record) : Prop :=
  ∃ cs : List Candidate, records = cs.map plan.record ∧ ∀ c ∈ cs, good c

theorem RecordsOf.append {plan : Plan} {rs rs' : List Record} (h : RecordsOf plan good rs)
    (h' : RecordsOf plan good rs') : RecordsOf plan good (rs ++ rs') := by
  obtain ⟨cs, rfl, hcs⟩ := h
  obtain ⟨cs', rfl, hcs'⟩ := h'
  refine ⟨cs ++ cs', List.map_append.symm, fun c hc => ?_⟩
  exact (List.mem_append.mp hc).elim (hcs c) (hcs' c)

namespace Surroundings.Sustain

variable {s : Surroundings σ} {plan : Plan} {inputs : List Path}
  (h : s.Sustain plan inputs I good) {works : List (StageWork σ)}
  (hworks : ∀ work ∈ works, WorkKeeps plan I good work)
include h

theorem assemblies : ∀ paths : List Path,
    Ensures I (fun accepted => accepted.Sublist paths) (s.assemblies paths)
  | [] => .pure (.refl _)
  | path :: rest =>
    (h.isAssembly path).bind fun accepted _ => (assemblies rest).bind fun others hothers => by
      refine .pure ?_
      cases accepted with
      | true => exact hothers.cons_cons path
      | false => exact hothers.cons path

/-- The files of an input are good ones. -/
theorem files {root : Input} (hroot : root.path ∈ inputs)
    (hfile : root.kind = .file → good ⟨root.path, root⟩) :
    Ensures I (fun paths => ∀ q ∈ paths, good ⟨q, root⟩) (s.files plan root) := by
  obtain ⟨path, kind⟩ := root
  unfold Surroundings.files
  cases kind with
  | file =>
    refine .pure fun q hq => ?_
    rw [List.mem_singleton.mp hq]
    exact hfile rfl
  | directory =>
    refine (h.search path hroot).bind fun found hfound => (h.log _ _).bind fun _ _ => ?_
    exact .pure fun q hq => hfound q ((List.mergeSort_perm _ _).mem_iff.mp hq)

theorem discover {root : Input} (hroot : root.path ∈ inputs)
    (hfile : root.kind = .file → good ⟨root.path, root⟩) :
    Ensures I (fun cs => ∀ c ∈ cs, c.input = root ∧ good c) (s.discover plan root) := by
  refine (h.files hroot hfile).bind fun paths hpaths =>
    (h.assemblies paths).bind fun accepted haccepted => .pure fun c hc => ?_
  obtain ⟨q, hq, rfl⟩ := List.mem_map.mp hc
  exact ⟨rfl, hpaths q (haccepted.subset hq)⟩

theorem input {path : Path} (hpath : path ∈ inputs) :
    Ensures I (fun root => root.path = path ∧ (root.kind = .file → good ⟨root.path, root⟩))
      (s.input path) := by
  refine (h.probe path hpath).bind fun kind? hkind => ?_
  cases kind? with
  | none => exact .throw _
  | some kind =>
    refine .pure ⟨rfl, ?_⟩
    rintro rfl
    exact hkind rfl

include hworks

omit h in
theorem runAll {c : Candidate} (hc : good c) :
    Keeps I (Stage.runAll c.path (plan.destination c) works) := by
  induction works with
  | nil => exact .pure trivial
  | cons work works ih =>
    have hone := hworks work (by simp) c hc
    exact hone.bind fun _ _ => ih fun work hwork => hworks work (by simp [hwork])

theorem dispatch {c : Candidate} (hc : good c) :
    Ensures I (fun record? => ∀ r, record? = some r → r = plan.record c)
      (s.dispatch plan works c) := by
  refine (h.isAssembly c.path).bind fun accepted _ => ?_
  cases accepted with
  | false => exact (h.log _ _).bind fun _ _ => .pure (by simp)
  | true =>
    refine (h.makeDirectories c hc).bind fun _ _ =>
      (runAll hworks hc).unlessToolMissing.bind fun missing? _ => ?_
    cases missing? with
    | some d => exact (h.log _ _).bind fun _ _ => .pure (by simp)
    | none => exact (h.report _).bind fun _ _ => .pure fun r hr => (Option.some.inj hr).symm

theorem dispatchAll : ∀ {cs : List Candidate}, (∀ c ∈ cs, good c) →
    Ensures I (fun records => ∃ cs' : List Candidate, cs'.Sublist cs ∧
      records = cs'.map plan.record) (s.dispatchAll plan works cs)
  | [], _ => .pure ⟨[], .refl _, rfl⟩
  | c :: cs, hcs => by
    refine (h.dispatch hworks (hcs c (by simp))).bind fun record? hrecord => ?_
    refine (dispatchAll fun c hc => hcs c (by simp [hc])).bind fun records hrecords => .pure ?_
    obtain ⟨cs', hsub, rfl⟩ := hrecords
    cases record? with
    | none => exact ⟨cs', hsub.cons c, rfl⟩
    | some r =>
      rw [hrecord r rfl]
      exact ⟨c :: cs', hsub.cons_cons c, rfl⟩

theorem processAll : ∀ paths : List Path, (∀ path ∈ paths, path ∈ inputs) →
    Ensures I (RecordsOf plan fun c => c.input.path ∈ inputs ∧ good c)
      (s.processAll plan works paths)
  | [], _ => .pure ⟨[], rfl, by simp⟩
  | path :: rest, hpaths => by
    have hpath := hpaths path (by simp)
    refine (h.input hpath).bind fun root hroot => (h.log _ _).bind fun _ _ => ?_
    refine (h.discover (hroot.1 ▸ hpath) hroot.2).bind fun cs hcs => ?_
    refine (h.dispatchAll hworks fun c hc => (hcs c hc).2).bind fun records hrecords => ?_
    refine (processAll rest fun path hmem => hpaths path (by simp [hmem])).bind
      fun others hothers => .pure (RecordsOf.append ?_ hothers)
    obtain ⟨cs', hsub, rfl⟩ := hrecords
    refine ⟨cs', rfl, fun c hc => ?_⟩
    obtain ⟨hinput, hgood⟩ := hcs c (hsub.subset hc)
    exact ⟨by rw [hinput, hroot.1]; exact hpath, hgood⟩

omit hworks in
/-- **A run keeps what its parts keep**, and its records are those of good files below its
    inputs. -/
theorem run {stages : List (Stage σ)}
    (hstages : ∀ stage ∈ stages, Ensures I (WorkKeeps plan I good) stage.prepare) :
    Ensures I (RecordsOf plan fun c => c.input.path ∈ inputs ∧ good c)
      (s.run plan stages inputs) := by
  have hprepare : ∀ stages : List (Stage σ),
      (∀ stage ∈ stages, Ensures I (WorkKeeps plan I good) stage.prepare) →
      Ensures I (fun works => ∀ work ∈ works, WorkKeeps plan I good work)
        (Stage.prepareAll stages) := by
    intro stages
    induction stages with
    | nil => exact fun _ => .pure (by simp)
    | cons stage stages ih =>
      intro hstages
      refine (hstages stage (by simp)).bind fun work hwork => ?_
      refine (ih fun stage hstage => hstages stage (by simp [hstage])).bind fun works hworks => ?_
      refine .pure fun work' hwork' => ?_
      rcases List.mem_cons.mp hwork' with rfl | hwork'
      · exact hwork
      · exact hworks work' hwork'
  have hsorted : ∀ stage ∈ Stage.inRankOrder stages,
      Ensures I (WorkKeeps plan I good) stage.prepare :=
    fun stage hstage => hstages stage ((List.mergeSort_perm _ _).mem_iff.mp hstage)
  refine (hprepare _ hsorted).bind fun works hworks => ?_
  refine (h.processAll hworks inputs fun _ hpath => hpath).bind fun records hrecords => ?_
  exact (h.log _ _).bind fun _ _ => .pure hrecords

end Surroundings.Sustain

end Run

/-! ### Runs and their traces -/

section Trace

variable {σ α : Type}

/-- Observing a run adds its trace, which conforms. -/
theorem Surroundings.observed_run (s : Surroundings σ) (plan : Plan) (stages : List (Stage σ))
    (inputs : List Path) (start : σ) :
    s.observed.run plan (observedStages stages) inputs ([], start) =
      withTrace id (s.trace plan stages inputs start) (s.run plan stages inputs start) ∧
    Conforms plan (stageOrder stages) inputs (s.trace plan stages inputs start)
      (outcome (s.run plan stages inputs start)) := by
  obtain ⟨events, hcourse, hrun⟩ := Observes.run s plan stages inputs [] start
  rw [List.nil_append] at hrun
  have htrace : s.trace plan stages inputs start = events := by
    rw [Surroundings.trace, hrun]
    cases s.run plan stages inputs start <;> rfl
  rw [htrace]
  exact ⟨hrun, hcourse⟩

/-- A property of a trace and a state, kept by a call that adds an event. -/
def KeptBy (J : List Event → σ → Prop) (event : Except Failure α → Event) (work : Work σ α) :
    Prop :=
  ∀ trace st, J trace st → J (trace ++ [event (outcome (work st))]) (stateAfter (work st))

/-- A property of what has happened and of the state that every call keeps. -/
structure Invariant (s : Surroundings σ) (stages : List (Stage σ)) (J : List Event → σ → Prop) :
    Prop where
  probe : ∀ path, KeptBy J (.probed path) (s.probe path)
  search : ∀ root pattern, KeptBy J (.searched root pattern) (s.search root pattern)
  isAssembly : ∀ path, KeptBy J (.validated path) (s.isAssembly path)
  makeDirectories : ∀ path, KeptBy J (.madeDirectories path) (s.makeDirectories path)
  log : ∀ level text, KeptBy J (.logged level text) (s.log level text)
  report : ∀ line, KeptBy J (.reported line) (s.report line)
  prepare : ∀ i stage, stages[i]? = some stage →
    KeptBy J (fun r => .prepared i (r.map fun _ => ())) stage.prepare
  call : ∀ i stage, stages[i]? = some stage → ∀ past st work t, J past st →
    stage.prepare st = .ok work t → ∀ source destination,
      KeptBy J (.called i source destination) (work source destination)

namespace Invariant

variable {s : Surroundings σ} {stages : List (Stage σ)} {J : List Event → σ → Prop}

theorem keeps_noted {event : Except Failure α → Event} {work : Work σ α} (h : KeptBy J event work) :
    Keeps (fun p : List Event × σ => J p.1 p.2) (noted event work) := by
  refine Ensures.of_keeps fun p hp => ?_
  have hafter := h p.1 p.2 hp
  unfold noted
  cases hres : work p.2 <;> simpa [hres, outcome, stateAfter] using hafter

theorem observed (h : Invariant s stages J) (plan : Plan) (inputs : List Path) :
    s.observed.Sustain plan inputs (fun p : List Event × σ => J p.1 p.2) fun _ => True where
  probe path _ st hst := ⟨(keeps_noted (h.probe path) st hst).1, fun _ _ _ => trivial⟩
  search path _ st hst :=
    ⟨(keeps_noted (h.search path plan.pattern) st hst).1, fun _ _ _ _ => trivial⟩
  isAssembly path := keeps_noted (h.isAssembly path)
  makeDirectories _ _ := keeps_noted (h.makeDirectories _)
  log level text := keeps_noted (h.log level text)
  report line := keeps_noted (h.report line)

theorem observedStage (h : Invariant s stages J) (plan : Plan) {i : Nat} {stage : Stage σ}
    (hi : stages[i]? = some stage) :
    Ensures (fun p : List Event × σ => J p.1 p.2)
      (WorkKeeps plan (fun p => J p.1 p.2) fun _ => True) (observedStage i stage).prepare := by
  have hprepared : Ensures (fun p : List Event × σ => J p.1 p.2)
      (fun work => ∃ past st t, J past st ∧ stage.prepare st = .ok work t)
      (noted (fun r => .prepared i (r.map fun _ => ())) stage.prepare) := by
    refine fun p hp => ⟨(keeps_noted (h.prepare i stage hi) p hp).1, fun work hwork => ?_⟩
    unfold noted at hwork
    cases hres : stage.prepare p.2 with
    | ok work' t =>
      rw [hres] at hwork
      obtain rfl : work' = work := Except.ok.inj hwork
      exact ⟨p.1, p.2, t, hp, hres⟩
    | error f t =>
      rw [hres] at hwork
      cases hwork
  refine hprepared.bind fun work hwork => Ensures.pure ?_
  obtain ⟨past, st, t, hpast, hprepare⟩ := hwork
  exact fun c _ =>
    keeps_noted (h.call i stage hi past st work t hpast hprepare c.path (plan.destination c))

/-- **Invariants hold all along.** What every call keeps holds at the end of a run, of its whole
    trace. -/
theorem run (h : Invariant s stages J) (plan : Plan) (inputs : List Path) {start : σ}
    (hstart : J [] start) :
    J (s.trace plan stages inputs start) (stateAfter (s.run plan stages inputs start)) := by
  have hstages : ∀ stage ∈ observedStages stages,
      Ensures (fun p : List Event × σ => J p.1 p.2)
        (WorkKeeps plan (fun p => J p.1 p.2) fun _ => True) stage.prepare := by
    intro stage hstage
    obtain ⟨entry, hentry, rfl⟩ := List.mem_map.mp hstage
    exact h.observedStage plan (List.mem_zipIdx_iff_getElem?.mp hentry)
  have hrun := ((h.observed plan inputs).run hstages ([], start) hstart).1
  rw [(s.observed_run plan stages inputs start).1] at hrun
  cases hres : s.run plan stages inputs start <;> simpa [hres, withTrace, stateAfter] using hrun

end Invariant

end Trace

end ILDump.Pipeline
