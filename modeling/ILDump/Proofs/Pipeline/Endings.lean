import ILDump.Proofs.Pipeline.Moments

/-!
# How runs end

A run ends with the first event that is fatal, and with the failure this event stands
for. Missing a tool is fatal while stages are prepared and only then. A run that does not
end early gives a record for every file it reported.
-/

namespace ILDump.Pipeline

variable {α β γ : Type} {order : List Nat}

/-! ### The end of a run -/

/-- The failure that an event ends a run with. -/
def Event.fatal? : Event → Option Failure
  | .prepared _ (.error f) => some f
  | .probed _ (.error f) => some f
  | .probed path (.ok none) => some (.diagnosed .input (.inputNotFound path.text))
  | .searched _ _ (.error f) => some f
  | .validated _ (.error f) => some f
  | .madeDirectories _ (.error f) => some f
  | .called _ _ _ (.error (.diagnosed .tool _)) => none
  | .called _ _ _ (.error f) => some f
  | .reported _ (.error f) => some f
  | .logged _ _ (.error f) => some f
  | _ => none

/-- Events that no failure stands behind, or exactly one at the end. -/
def Settled (events : List Event) : Except Failure α → Prop
  | .ok _ => ∀ e ∈ events, e.fatal? = none
  | .error f => ∃ before e, events = before ++ [e] ∧ e.fatal? = some f ∧
    ∀ e' ∈ before, e'.fatal? = none

def EndsInTime (p : Course α) : Prop :=
  ∀ events result, p events result → Settled events result

theorem Settled.append {before after : List Event} {result : Except Failure α}
    (hbefore : ∀ e ∈ before, e.fatal? = none) (h : Settled after result) :
    Settled (before ++ after) result := by
  have hall {events : List Event} (hevents : ∀ e ∈ events, e.fatal? = none) :
      ∀ e ∈ before ++ events, e.fatal? = none := by
    intro e he
    rcases List.mem_append.mp he with he | he
    · exact hbefore e he
    · exact hevents e he
  cases result with
  | ok a => exact hall h
  | error f =>
    obtain ⟨events, e, rfl, hfatal, hevents⟩ := h
    exact ⟨before ++ events, e, (List.append_assoc ..).symm, hfatal, hall hevents⟩

theorem Settled.cons {e : Event} {events : List Event} {result : Except Failure α}
    (he : e.fatal? = none) (h : Settled events result) : Settled (e :: events) result := by
  have hone : ∀ e' ∈ [e], e'.fatal? = none := by simpa using he
  exact Settled.append hone h

theorem Settled.last {e : Event} {f : Failure} (he : e.fatal? = some f) :
    Settled [e] (.error f : Except Failure α) :=
  ⟨[], e, rfl, he, by simp⟩

theorem Settled.map {events : List Event} {result : Except Failure α} (h : Settled events result)
    (f : α → β) : Settled events (result.map f) := by
  cases result with
  | ok a => exact h
  | error e => exact h

namespace EndsInTime

theorem nothing (a : α) : EndsInTime (Course.nothing (.ok a)) := by
  rintro _ _ ⟨rfl, rfl⟩
  simp [Settled]

theorem andThen {p : Course α} {q : α → Course β} (hp : EndsInTime p)
    (hq : ∀ a, EndsInTime (q a)) : EndsInTime (p.Then q) := by
  rintro events result (⟨h⟩ | ⟨h, h'⟩)
  · exact hp _ _ h
  · exact Settled.append (hp _ _ h) (hq _ _ _ h')

theorem each {part : β → List γ} {p : α → Course β} {xs : List α} (hp : ∀ x, EndsInTime (p x)) :
    EndsInTime (Course.Each part p xs) := by
  intro events result h
  induction h with
  | done => simp [Settled]
  | stopped hx => exact hp _ _ _ hx
  | next hx _ ih => exact (Settled.append (hp _ _ _ hx) ih).map _

theorem remark (level : LogLevel) : EndsInTime (Remark level) := by
  intro events result h
  cases h with
  | remark =>
    cases result with
    | ok _ => simp [Settled, Event.fatal?]
    | error f => exact .last rfl

theorem files (plan : Plan) (path : Path) (kind : InputKind) :
    EndsInTime (Files plan path kind) := by
  intro events result h
  cases h with
  | file => simp [Settled]
  | unsearched => exact .last rfl
  | directory _ _ => exact .cons rfl ((remark .info _ _ .remark).map _)

theorem discovery (paths : List Path) : EndsInTime (Discovery paths) := by
  intro events result h
  induction h with
  | done => simp [Settled]
  | stopped => exact .last rfl
  | next _ ih => exact .cons rfl (ih.map _)

theorem fatal?_of_mem_through {done : List Nat} {source destination : Path} :
    ∀ e ∈ through done source destination, e.fatal? = none := by
  intro e he
  rcases List.mem_append.mp he with he | he
  · rcases List.mem_pair.mp he with rfl | rfl <;> rfl
  · obtain ⟨i, -, rfl⟩ := List.mem_map.mp he
    rfl

/-- Any failure of a stage is fatal but a missing tool. -/
theorem fatal?_called {i : Nat} {source destination : Path} {f : Failure}
    (hf : ∀ d, f ≠ .diagnosed .tool d) :
    (Event.called i source destination (.error f)).fatal? = some f := by
  rcases f with ⟨work, d⟩ | _ | _ | _
  · cases work with
    | tool => exact absurd rfl (hf d)
    | _ => rfl
  all_goals rfl

theorem dispatch (plan : Plan) (c : Candidate) : EndsInTime (Dispatch plan order c) := by
  intro events result h
  cases h with
  | unchecked => exact .last rfl
  | rejected => exact .cons rfl ((remark .warning _ _ .remark).map _)
  | homeless => exact .cons rfl (.last rfl)
  | toolMissing _ =>
    exact .append fatal?_of_mem_through (.cons rfl ((remark .error _ _ .remark).map _))
  | failed _ hf => exact .append fatal?_of_mem_through (.last (fatal?_called hf))
  | @completed r =>
    refine .append fatal?_of_mem_through (Settled.map ?_ _)
    cases r with
    | ok _ => simp [Settled, Event.fatal?]
    | error f => exact .last rfl

theorem input (plan : Plan) (path : Path) : EndsInTime (Section plan order path) := by
  rintro events result (⟨⟨⟩⟩ | @⟨_, _, kind?, _, ⟨⟩, h⟩)
  · exact .last rfl
  · cases kind? with
    | none =>
      obtain ⟨rfl, rfl⟩ := h
      exact .last rfl
    | some kind =>
      have hrest : EndsInTime ((Remark .info).Then fun _ =>
          (Files plan path kind).Then fun paths => (Discovery paths).Then fun accepted =>
            Course.Each Option.toList (Dispatch plan order) (accepted.map (⟨·, ⟨path, kind⟩⟩))) :=
        (remark .info).andThen fun _ => (files plan path kind).andThen fun paths =>
          (discovery paths).andThen fun _ => each fun c => dispatch plan c
      exact .cons rfl (hrest _ _ h)

theorem sections (plan : Plan) (inputs : List Path) : EndsInTime (Sections plan order inputs) :=
  (each fun path => input plan path).andThen fun records =>
    (remark .info).andThen fun _ => nothing records

/-- **Runs end in time**: with the first fatal event and its failure, or with no failure. -/
theorem conforms (plan : Plan) (inputs : List Path) :
    EndsInTime (Conforms plan order inputs) := by
  have hprepared (done : List Nat) :
      ∀ e ∈ done.map fun i => Event.prepared i (.ok ()), e.fatal? = none := by
    intro e he
    obtain ⟨i, -, rfl⟩ := List.mem_map.mp he
    rfl
  intro events result h
  cases h with
  | unprepared _ => exact .append (hprepared _) (.last rfl)
  | prepared hsections => exact .append (hprepared _) (sections plan inputs _ _ hsections)

end EndsInTime

/-! ### What is picked out of a course -/

section Gives

variable {δ : Type} {pick : Event → Option δ}

/-- A kind of course that comes to its result with the entries that belong to it, picked out
    of its events. -/
def Gives (pick : Event → Option δ) (entries : α → List δ) (p : Course α) : Prop :=
  ∀ events a, p events (.ok a) → events.filterMap pick = entries a

namespace Gives

theorem andThen {p : Course α} {q : α → Course β} {entries : β → List δ}
    (hp : Gives pick (fun _ => []) p) (hq : ∀ a, Gives pick entries (q a)) :
    Gives pick entries (p.Then q) := by
  rintro events b (_ | ⟨h, h'⟩)
  rw [List.filterMap_append, hp _ _ h, hq _ _ _ h', List.nil_append]

theorem each {part : β → List γ} {p : α → Course β} {entry : γ → δ} {xs : List α}
    (hp : ∀ x, Gives pick (fun y => (part y).map entry) (p x)) :
    Gives pick (List.map entry) (Course.Each part p xs) := by
  intro events zs h
  generalize hresult : Except.ok zs = result at h
  induction h generalizing zs with
  | done =>
    cases hresult
    rfl
  | stopped _ => cases hresult
  | @next x xs before after y result hx _ ih =>
    cases result with
    | error f => cases hresult
    | ok zs =>
      cases hresult
      rw [List.filterMap_append, hp x _ _ hx, ih zs rfl, List.map_append]

variable (hlooks : ∀ e : Event, e.isLook = true → pick e = none)
include hlooks

theorem of_looks {p : Course α} (hp : OnlyLooks p) : Gives pick (fun _ => []) p := by
  intro events a h
  exact List.filterMap_eq_nil_iff.mpr fun e he => hlooks e (hp events _ h e he)

variable {entry : Record → δ} {plan : Plan}
  (hdispatch : ∀ c, Gives pick (fun record? => record?.toList.map entry) (Dispatch plan order c))
include hdispatch

theorem input (path : Path) : Gives pick (List.map entry) (Section plan order path) := by
  refine (of_looks hlooks (.probe path)).andThen fun kind? => ?_
  cases kind? with
  | none =>
    rintro _ _ ⟨-, ⟨⟩⟩
  | some kind =>
    exact (of_looks hlooks (.remark .info)).andThen fun _ =>
      (of_looks hlooks (.files plan path kind)).andThen fun paths =>
        (of_looks hlooks (.discovery paths)).andThen fun _ => each fun c => hdispatch c

/-- What is picked out of the dispatches alone is told by the records of a run that does not
    end early. -/
theorem conforms (hprepared : ∀ i r, pick (.prepared i r) = none) (inputs : List Path) :
    Gives pick (List.map entry) (Conforms plan order inputs) := by
  intro events records h
  generalize hresult : Except.ok records = result at h
  cases h with
  | unprepared _ => cases hresult
  | prepared hsections =>
    subst hresult
    rcases hsections with _ | ⟨hinputs, _ | ⟨hremark, rfl, ⟨⟩⟩⟩
    have hgives : Gives pick (List.map entry) (Course.Each id (Section plan order) inputs) :=
      each fun path => input hlooks hdispatch path
    have hnone : (order.map fun i => Event.prepared i (.ok ())).filterMap pick = [] := by
      rw [List.filterMap_map]
      exact List.filterMap_eq_nil_iff.mpr fun i _ => hprepared i _
    rw [List.filterMap_append, List.filterMap_append, List.filterMap_append, hnone,
      hgives _ _ hinputs, of_looks hlooks (.remark .info) _ _ hremark]
    simp

end Gives

end Gives

/-! ### What is reported -/

def Event.reportedLine? : Event → Option String
  | .reported line _ => some line
  | _ => none

/-- A kind of course that comes to its result with the reports that belong to it. -/
abbrev ReportsAll (lines : α → List String) (p : Course α) : Prop :=
  Gives Event.reportedLine? lines p

namespace ReportsAll

theorem filterMap_through {done : List Nat} {source destination : Path} :
    (through done source destination).filterMap Event.reportedLine? = [] := by
  rw [through, List.filterMap_append, List.filterMap_map]
  exact List.filterMap_eq_nil_iff.mpr fun _ _ => rfl

/-- A file is reported if it leaves a record, and not otherwise. -/
theorem dispatch (plan : Plan) (c : Candidate) :
    ReportsAll (fun record? => record?.toList.map Record.line) (Dispatch plan order c) := by
  intro events record? h
  generalize hresult : Except.ok record? = result at h
  cases h with
  | unchecked => cases hresult
  | homeless => cases hresult
  | failed _ _ => cases hresult
  | @rejected text r =>
    cases r with
    | error f => cases hresult
    | ok _ =>
      cases hresult
      rfl
  | @toolMissing done later i d text r _ =>
    cases r with
    | error f => cases hresult
    | ok _ =>
      cases hresult
      rw [List.filterMap_append, filterMap_through]
      rfl
  | @completed r =>
    cases r with
    | error f => cases hresult
    | ok _ =>
      cases hresult
      rw [List.filterMap_append, filterMap_through]
      rfl

/-- **A run that does not end early reports the files it gives records of**, in the same
    order. -/
theorem conforms (plan : Plan) (inputs : List Path) :
    ReportsAll (List.map Record.line) (Conforms plan order inputs) := by
  refine Gives.conforms (fun e he => ?_) (dispatch plan) (fun _ _ => rfl) inputs
  cases e with
  | reported => cases he
  | _ => rfl

end ReportsAll

end ILDump.Pipeline
