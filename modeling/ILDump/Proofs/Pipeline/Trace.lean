import ILDump.Pipeline.Run

/-!
# Observed runs

A run calls its surroundings and its stages. `Surroundings.observed` and `Stage.observed`
write every such call, with what came of it, into a list of events beside the state, and
leave everything else as it is. What a run does is then a list of events with an end: a
`Course`. `Observes` says that observed work does what the work itself does and that its
events make up a course of some kind; there is one rule for each way to put work together.
-/

namespace ILDump.Pipeline

/-- A call to the surroundings or to a stage, with what came of it. Stages are named by
    their places in the list they were given in. -/
inductive Event where
  | prepared (stage : Nat) (result : Except Failure Unit)
  | probed (path : Path) (result : Except Failure (Option InputKind))
  | searched (root : Path) (pattern : String) (result : Except Failure (List Path))
  | validated (path : Path) (verdict : Except Failure Bool)
  | madeDirectories (path : Path) (result : Except Failure Unit)
  | called (stage : Nat) (source destination : Path) (result : Except Failure Unit)
  | reported (line : String) (result : Except Failure Unit)
  | logged (level : LogLevel) (text : String) (result : Except Failure Unit)

def outcome {σ α : Type} : EStateM.Result Failure σ α → Except Failure α
  | .ok a _ => .ok a
  | .error f _ => .error f

def stateAfter {σ α : Type} : EStateM.Result Failure σ α → σ
  | .ok _ t => t
  | .error _ t => t

/-! ### Writing calls down -/

section Observed

variable {σ α : Type}

/-- Does work and writes down what came of it. -/
def noted (event : Except Failure α → Event) (work : Work σ α) : Work (List Event × σ) α :=
  fun s =>
    match work s.2 with
    | .ok a t => .ok a (s.1 ++ [event (.ok a)], t)
    | .error f t => .error f (s.1 ++ [event (.error f)], t)

/-- Surroundings that write down every call. -/
def Surroundings.observed (s : Surroundings σ) : Surroundings (List Event × σ) where
  probe path := noted (.probed path) (s.probe path)
  search root pattern := noted (.searched root pattern) (s.search root pattern)
  isAssembly path := noted (.validated path) (s.isAssembly path)
  makeDirectories path := noted (.madeDirectories path) (s.makeDirectories path)
  log level text := noted (.logged level text) (s.log level text)
  report line := noted (.reported line) (s.report line)

/-- The work of a stage, written down at each call. -/
def observedWork (number : Nat) (work : StageWork σ) : StageWork (List Event × σ) :=
  fun source destination => noted (.called number source destination) (work source destination)

def observedStage (number : Nat) (stage : Stage σ) : Stage (List Event × σ) where
  name := stage.name
  rank := stage.rank
  prepare := do
    let work ← noted (fun r => .prepared number (r.map fun _ => ())) stage.prepare
    return observedWork number work

/-- Stages that write down their calls under their places in the list. -/
def observedStages (stages : List (Stage σ)) : List (Stage (List Event × σ)) :=
  stages.zipIdx.map fun entry => observedStage entry.2 entry.1

/-- The events of a run, first to last. -/
def Surroundings.trace (s : Surroundings σ) (plan : Plan) (stages : List (Stage σ))
    (inputs : List Path) (start : σ) : List Event :=
  (stateAfter (s.observed.run plan (observedStages stages) inputs ([], start))).1

end Observed

/-! ### Courses -/

/-- A kind of course: which events may happen, and with which end. -/
abbrev Course (α : Type) : Type :=
  List Event → Except Failure α → Prop

namespace Course

variable {α β : Type}

/-- One call, which ends as it was answered. -/
def call (event : Except Failure α → Event) : Course α := fun events result =>
  events = [event result]

def nothing (result : Except Failure α) : Course α := fun events result' =>
  events = [] ∧ result' = result

/-- One course after another. A failure of the first ends both. -/
inductive Then (p : Course α) (q : α → Course β) : Course β where
  | stopped {events : List Event} {f : Failure} :
    p events (.error f) → Then p q events (.error f)
  | next {before after : List Event} {a : α} {result : Except Failure β} :
    p before (.ok a) → q a after result → Then p q (before ++ after) result

/-- The same for each entry of a list, in its order, with what `part` makes of the results
    put together. The first failure ends it. -/
inductive Each {γ : Type} (part : β → List γ) (p : α → Course β) : List α → Course (List γ) where
  | done : Each part p [] [] (.ok [])
  | stopped {x : α} {xs : List α} {events : List Event} {f : Failure} :
    p x events (.error f) → Each part p (x :: xs) events (.error f)
  | next {x : α} {xs : List α} {before after : List Event} {y : β}
      {result : Except Failure (List γ)} :
    p x before (.ok y) → Each part p xs after result →
    Each part p (x :: xs) (before ++ after) (result.map (part y ++ ·))

theorem Each.cons {γ : Type} {part : β → List γ} {p : α → Course β} {x : α} {xs : List α}
    {events : List Event} {result : Except Failure (List γ)}
    (h : (p x).Then (fun y => (Each part p xs).Then fun zs => nothing (.ok (part y ++ zs)))
      events result) :
    Each part p (x :: xs) events result := by
  rcases h with ⟨hx⟩ | ⟨hx, ⟨hxs⟩ | ⟨hxs, rfl, rfl⟩⟩
  · exact .stopped hx
  · exact .next hx hxs
  · rw [List.append_nil]
    exact .next hx hxs

end Course

/-! ### What observed work does -/

section Observes

variable {σ α β γ δ : Type}

/-- What observed work gives when the work itself gives a result, with the trace so far. -/
def withTrace (g : β → α) (trace : List Event) :
    EStateM.Result Failure σ β → EStateM.Result Failure (List Event × σ) α
  | .ok b t => .ok (g b) (trace, t)
  | .error f t => .error f (trace, t)

/-- What is left of an outcome once a missing tool is told of instead of being a failure. -/
def toldToolMissing : Except Failure Unit → Except Failure (Option Diagnosis)
  | .ok _ => .ok none
  | .error (.diagnosed .tool d) => .ok (some d)
  | .error f => .error f

theorem toldToolMissing_eq_ok {r : Except Failure Unit} {missing? : Option Diagnosis}
    (h : toldToolMissing r = .ok missing?) :
    (r = .ok () ∧ missing? = none) ∨ ∃ d, r = .error (.diagnosed .tool d) ∧ missing? = some d := by
  unfold toldToolMissing at h
  split at h
  · cases h
    exact .inl ⟨rfl, rfl⟩
  · cases h
    exact .inr ⟨_, rfl, rfl⟩
  · cases h

theorem toldToolMissing_eq_error {r : Except Failure Unit} {f : Failure}
    (h : toldToolMissing r = .error f) : r = .error f ∧ ∀ d, f ≠ .diagnosed .tool d := by
  unfold toldToolMissing at h
  split at h
  · cases h
  · cases h
  · rename_i hother
    cases h
    exact ⟨rfl, hother⟩

theorem outcome_unlessToolMissing (work : Work σ Unit) (st : σ) :
    outcome (work.unlessToolMissing st) = toldToolMissing (outcome (work st)) := by
  unfold Work.unlessToolMissing
  cases work st with
  | ok a t => rfl
  | error f t =>
    simp only [outcome, toldToolMissing]
    split <;> split <;> simp_all

/-- Observed work ends as the work itself does, up to `g`, and adds the events of a course
    to the trace. -/
def Observes (g : β → α) (observed : Work (List Event × σ) α) (work : Work σ β)
    (course : Course β) : Prop :=
  ∀ trace st, ∃ events, course events (outcome (work st)) ∧
    observed (trace, st) = withTrace g (trace ++ events) (work st)

namespace Observes

variable {g : β → α} {h : δ → γ} {observed : Work (List Event × σ) α} {work : Work σ β}
  {course course' : Course β}

theorem mono (hw : Observes g observed work course)
    (hc : ∀ events result, course events result → course' events result) :
    Observes g observed work course' := by
  intro trace st
  obtain ⟨events, hcourse, heq⟩ := hw trace st
  exact ⟨events, hc _ _ hcourse, heq⟩

theorem pure (g : β → α) (b : β) :
    Observes g (Pure.pure (g b) : Work (List Event × σ) α) (Pure.pure b)
      (Course.nothing (.ok b)) := by
  intro trace st
  refine ⟨[], ⟨rfl, rfl⟩, ?_⟩
  rw [List.append_nil]
  rfl

theorem throw (g : β → α) (f : Failure) :
    Observes g (MonadExcept.throw f : Work (List Event × σ) α) (MonadExcept.throw f)
      (Course.nothing (.error f)) := by
  intro trace st
  refine ⟨[], ⟨rfl, rfl⟩, ?_⟩
  rw [List.append_nil]
  rfl

theorem noted (event : Except Failure β → Event) (work : Work σ β) :
    Observes id (noted event work) work (Course.call event) := by
  intro trace st
  refine ⟨[event (outcome (work st))], rfl, ?_⟩
  simp only [Pipeline.noted]
  cases work st with
  | ok b t => rfl
  | error f t => rfl

/-- Work after other work adds its events behind. It may rely on the first course having
    come to its result. -/
theorem bind_of_ok {observed' : α → Work (List Event × σ) γ} {work' : β → Work σ δ}
    {next : β → Course δ} (hw : Observes g observed work course)
    (hn : ∀ b, (∃ events, course events (.ok b)) →
      Observes h (observed' (g b)) (work' b) (next b)) :
    Observes h (observed >>= observed') (work >>= work') (course.Then next) := by
  intro trace st
  obtain ⟨events, hcourse, heq⟩ := hw trace st
  cases hst : work st with
  | error f t =>
    rw [hst] at hcourse heq
    have hb : (work >>= work') st = .error f t := by
      simp only [Bind.bind, EStateM.bind, hst]
    refine ⟨events, ?_, ?_⟩
    · rw [hb]
      exact .stopped hcourse
    · simp only [Bind.bind, EStateM.bind, heq, hst, withTrace]
  | ok b t =>
    rw [hst] at hcourse heq
    have hb : (work >>= work') st = work' b t := by
      simp only [Bind.bind, EStateM.bind, hst]
    obtain ⟨events', hcourse', heq'⟩ := hn b ⟨events, hcourse⟩ (trace ++ events) t
    refine ⟨events ++ events', ?_, ?_⟩
    · rw [hb]
      exact .next hcourse hcourse'
    · rw [hb, ← List.append_assoc, ← heq']
      simp only [Bind.bind, EStateM.bind, heq, withTrace]

theorem bind {observed' : α → Work (List Event × σ) γ} {work' : β → Work σ δ}
    {next : β → Course δ} (hw : Observes g observed work course)
    (hn : ∀ b, Observes h (observed' (g b)) (work' b) (next b)) :
    Observes h (observed >>= observed') (work >>= work') (course.Then next) :=
  hw.bind_of_ok fun b _ => hn b

theorem map (hw : Observes g observed work course) (f : α → γ) :
    Observes (fun b => f (g b)) (observed >>= fun a => Pure.pure (f a)) work course := by
  intro trace st
  obtain ⟨events, hcourse, heq⟩ := hw trace st
  refine ⟨events, hcourse, ?_⟩
  simp only [Bind.bind, EStateM.bind, heq]
  cases work st with
  | ok b t => rfl
  | error e t => rfl

theorem unlessToolMissing {observed : Work (List Event × σ) Unit} {work : Work σ Unit}
    {course : Course Unit} (hw : Observes id observed work course) :
    Observes id observed.unlessToolMissing work.unlessToolMissing fun events result =>
      ∃ r, course events r ∧ result = toldToolMissing r := by
  intro trace st
  obtain ⟨events, hcourse, heq⟩ := hw trace st
  refine ⟨events, ⟨_, hcourse, ?_⟩, ?_⟩
  · exact outcome_unlessToolMissing work st
  · simp only [Work.unlessToolMissing, heq]
    cases work st with
    | ok a t => rfl
    | error f t =>
      simp only [withTrace]
      split <;> simp_all [withTrace]

end Observes

end Observes

end ILDump.Pipeline
