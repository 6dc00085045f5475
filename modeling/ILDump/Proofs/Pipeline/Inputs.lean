import ILDump.Proofs.Pipeline.Protocol

/-!
# Inputs that are reached

A run looks at each of its inputs once, when it gets there, and never comes back to one. So
the inputs it has looked at are always the first ones, and all of them when it does not end
early.
-/

namespace ILDump.Pipeline

variable {α β γ : Type} {order : List Nat}

/-- The input that is looked at. -/
def Event.probedPath? : Event → Option Path
  | .probed path _ => some path
  | _ => none

/-- A kind of course in which no input is looked at. -/
def ProbesNothing (p : Course α) : Prop :=
  ∀ events result, p events result → events.filterMap Event.probedPath? = []

namespace ProbesNothing

theorem nothing (result : Except Failure α) : ProbesNothing (Course.nothing result) := by
  rintro _ _ ⟨rfl, -⟩
  rfl

theorem remark (level : LogLevel) : ProbesNothing (Remark level) := by
  rintro _ _ ⟨⟩
  rfl

theorem files (plan : Plan) (path : Path) (kind : InputKind) :
    ProbesNothing (Files plan path kind) := by
  rintro _ _ ⟨⟩ <;> rfl

theorem discovery (paths : List Path) : ProbesNothing (Discovery paths) := by
  intro events result h
  induction h with
  | done => rfl
  | stopped => rfl
  | next _ ih => exact ih

theorem filterMap_through {done : List Nat} {source destination : Path} :
    (through done source destination).filterMap Event.probedPath? = [] := by
  rw [through, List.filterMap_append, List.filterMap_map]
  exact List.filterMap_eq_nil_iff.mpr fun _ _ => rfl

theorem dispatch (plan : Plan) (c : Candidate) : ProbesNothing (Dispatch plan order c) := by
  rintro _ _ ⟨⟩ <;> simp [filterMap_through, Event.probedPath?]

theorem andThen {p : Course α} {q : α → Course β} (hp : ProbesNothing p)
    (hq : ∀ a, ProbesNothing (q a)) : ProbesNothing (p.Then q) := by
  rintro events result (⟨h⟩ | ⟨h, h'⟩)
  · exact hp _ _ h
  · rw [List.filterMap_append, hp _ _ h, hq _ _ _ h', List.nil_append]

theorem each {part : β → List γ} {p : α → Course β} {xs : List α}
    (hp : ∀ x, ProbesNothing (p x)) : ProbesNothing (Course.Each part p xs) := by
  intro events result h
  induction h with
  | done => rfl
  | stopped hx => exact hp _ _ _ hx
  | next hx _ ih => rw [List.filterMap_append, hp _ _ _ hx, ih, List.nil_append]

end ProbesNothing

/-- What happens with an input starts with a look at it. -/
theorem probedPaths_of_section {plan : Plan} {path : Path} {events : List Event}
    {result : Except Failure (List Record)} (h : Section plan order path events result) :
    events.filterMap Event.probedPath? = [path] := by
  rcases h with ⟨⟨⟩⟩ | @⟨before, after, kind?, _, ⟨⟩, h⟩
  · rfl
  · have hafter : after.filterMap Event.probedPath? = [] := by
      cases kind? with
      | none => exact ProbesNothing.nothing _ _ _ h
      | some kind =>
        have hrest : ProbesNothing ((Remark .info).Then fun _ =>
            (Files plan path kind).Then fun files => (Discovery files).Then fun accepted =>
              Course.Each Option.toList (Dispatch plan order) (accepted.map (⟨·, ⟨path, kind⟩⟩))) :=
          (ProbesNothing.remark .info).andThen fun _ => (ProbesNothing.files plan path kind).andThen
            fun files => (ProbesNothing.discovery files).andThen
              fun _ => ProbesNothing.each fun c => .dispatch plan c
        exact hrest _ _ h
    rw [List.filterMap_append, hafter]
    rfl

theorem probedPaths_of_each {plan : Plan} {inputs : List Path} {events : List Event}
    {result : Except Failure (List Record)}
    (h : Course.Each id (Section plan order) inputs events result) :
    events.filterMap Event.probedPath? <+: inputs ∧
      ∀ records, result = .ok records → events.filterMap Event.probedPath? = inputs := by
  induction h with
  | done => exact ⟨List.prefix_rfl, fun _ _ => rfl⟩
  | @stopped path rest events f hsection =>
    rw [probedPaths_of_section hsection]
    exact ⟨⟨rest, rfl⟩, nofun⟩
  | @next path rest before after records result hsection _ ih =>
    rw [List.filterMap_append, probedPaths_of_section hsection]
    obtain ⟨hreached, hall⟩ := ih
    refine ⟨List.cons_prefix_cons.mpr ⟨rfl, hreached⟩, fun all hresult => ?_⟩
    cases result with
    | error f => cases hresult
    | ok others => exact congrArg (path :: ·) (hall others rfl)

/-- **Inputs are reached in their order**, and all of them in a run that does not end early. -/
theorem probedPaths_of_conforms {plan : Plan} {inputs : List Path} {events : List Event}
    {result : Except Failure (List Record)} (h : Conforms plan order inputs events result) :
    events.filterMap Event.probedPath? <+: inputs ∧
      ∀ records, result = .ok records → events.filterMap Event.probedPath? = inputs := by
  have hprepared (done : List Nat) :
      (done.map fun i => Event.prepared i (.ok ())).filterMap Event.probedPath? = [] := by
    rw [List.filterMap_map]
    exact List.filterMap_eq_nil_iff.mpr fun _ _ => rfl
  cases h with
  | unprepared _ =>
    rw [List.filterMap_append, hprepared]
    exact ⟨List.nil_prefix, nofun⟩
  | @prepared events result hsections =>
    rw [List.filterMap_append, hprepared, List.nil_append]
    rcases hsections with ⟨heach⟩ | @⟨before, after, records, _, heach, hend⟩
    · exact ⟨(probedPaths_of_each heach).1, nofun⟩
    · have hafter : after.filterMap Event.probedPath? = [] :=
        (ProbesNothing.remark .info).andThen (fun _ => .nothing _) _ _ hend
      rw [List.filterMap_append, hafter, List.append_nil]
      have hall := (probedPaths_of_each heach).2 records rfl
      rw [hall]
      exact ⟨List.prefix_rfl, fun _ _ => rfl⟩

end ILDump.Pipeline
