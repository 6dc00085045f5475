import Mathlib.Data.List.Forall2

/-!
# Outcomes in sequence

Steps in sequence go on with what the step before left, or end with its fault. `Gives` says
what work on a state comes to whatever the state is, as long as an invariant holds, which the
work also keeps. There is one rule for each way to put work together, so work that uses a
state only to remember things is compared step by step with work that remembers nothing.
-/

namespace ILDump

/-! ### Outcomes -/

theorem exists_of_bind_eq_ok {ε α β : Type} {x : Except ε α} {f : α → Except ε β} {b : β}
    (h : (x >>= f) = .ok b) : ∃ a, x = .ok a ∧ f a = .ok b := by
  cases x with
  | error e => cases h
  | ok a => exact ⟨a, rfl, h⟩

theorem eq_ok_get {ε α : Type} {x : Except ε α} (h : x.toOption.isSome = true) :
    x = .ok (x.toOption.get h) := by
  cases x with
  | error e => cases h
  | ok a => rfl

/-- Doing something for a list does it for each of the entries, in order. -/
theorem forall₂_of_mapM {ε α β : Type} {f : α → Except ε β} :
    ∀ {xs : List α} {ys : List β}, xs.mapM f = .ok ys →
      List.Forall₂ (fun x y => f x = .ok y) xs ys
  | [], ys, h => by
    rw [List.mapM_nil] at h
    cases h
    exact .nil
  | x :: xs, ys, h => by
    rw [List.mapM_cons] at h
    obtain ⟨y, hy, h⟩ := exists_of_bind_eq_ok h
    obtain ⟨zs, hzs, h⟩ := exists_of_bind_eq_ok h
    cases h
    exact .cons hy (forall₂_of_mapM hzs)

theorem mapM_of_forall₂ {ε α β : Type} {f : α → Except ε β} {xs : List α} {ys : List β}
    (h : List.Forall₂ (fun x y => f x = .ok y) xs ys) : xs.mapM f = .ok ys := by
  induction h with
  | nil => rfl
  | cons hxy _ ih =>
    rw [List.mapM_cons, hxy, ih]
    rfl

theorem exists_of_forall₂ {α β : Type} {r : α → β → Prop} {xs : List α} {ys : List β} {y : β}
    (h : List.Forall₂ r xs ys) (hy : y ∈ ys) : ∃ x, r x y := by
  induction h with
  | nil => cases hy
  | @cons x z xs zs hxz _ ih =>
    rcases List.mem_cons.mp hy with rfl | hy
    · exact ⟨x, hxz⟩
    · exact ih hy

theorem forall₂_filterMap {α β : Type} {r : α → β → Prop} {f : α → Option β} {xs : List α}
    (h : ∀ x ∈ xs, ∃ y, f x = some y ∧ r x y) : List.Forall₂ r xs (xs.filterMap f) := by
  induction xs with
  | nil => exact .nil
  | cons x xs ih =>
    obtain ⟨y, hy, hr⟩ := h x (by simp)
    rw [List.filterMap_cons, hy]
    exact .cons hr (ih fun x hx => h x (by simp [hx]))

theorem map_eq_map_of_forall₂ {α β γ : Type} {f : α → γ} {g : β → γ} {xs : List α} {ys : List β}
    (h : List.Forall₂ (fun x y => g y = f x) xs ys) : ys.map g = xs.map f := by
  induction h with
  | nil => rfl
  | cons hxy _ ih => rw [List.map_cons, List.map_cons, hxy, ih]

/-! ### Work on a state -/

section Bind

theorem get_bind {ε σ β : Type} (next : σ → EStateM ε σ β) (s : σ) :
    (get >>= next) s = next s s := rfl

variable {ε σ α β : Type} {work : EStateM ε σ α} {next : α → EStateM ε σ β} {s s' : σ}

theorem bind_eq_of_ok {a : α} (h : work s = .ok a s') : (work >>= next) s = next a s' := by
  change EStateM.bind work next s = _
  rw [EStateM.bind, h]

theorem bind_eq_of_error {e : ε} (h : work s = .error e s') :
    (work >>= next) s = .error e s' := by
  change EStateM.bind work next s = _
  rw [EStateM.bind, h]

theorem exists_of_bind_run {b : β} (h : (work >>= next) s = .ok b s') :
    ∃ a t, work s = .ok a t ∧ next a t = .ok b s' := by
  cases hwork : work s with
  | error e t =>
    rw [bind_eq_of_error hwork] at h
    cases h
  | ok a t =>
    rw [bind_eq_of_ok hwork] at h
    exact ⟨a, t, rfl, h⟩

/-- A result and the state that work leaves with it. -/
def leaving (x : Except ε α) (s : σ) : EStateM.Result ε σ α :=
  match x with
  | .ok a => .ok a s
  | .error e => .error e s

theorem bind_eq_of_leaving {x : Except ε α} :
    work s = leaving x s' →
      (work >>= next) s =
        match x with
        | .ok a => next a s'
        | .error e => .error e s' := by
  intro h
  cases x with
  | ok a => exact bind_eq_of_ok h
  | error e => exact bind_eq_of_error h

theorem bind_eq_of_eq {work' : EStateM ε σ α} (h : work s = work' s) :
    (work >>= next) s = (work' >>= next) s := by
  change EStateM.bind work next s = EStateM.bind work' next s
  rw [EStateM.bind, EStateM.bind, h]

end Bind

/-- From any state with the invariant, work ends with this outcome and keeps the invariant. -/
def Gives {ε σ α : Type} (I : σ → Prop) (work : EStateM ε σ α) (x : Except ε α) : Prop :=
  ∀ s, I s → ∃ s', I s' ∧ work s =
    match x with
    | .ok a => .ok a s'
    | .error e => .error e s'

namespace Gives

variable {ε σ α β : Type} {I : σ → Prop}

theorem pure (a : α) : Gives I (Pure.pure a : EStateM ε σ α) (.ok a) :=
  fun s hs => ⟨s, hs, rfl⟩

theorem throw (e : ε) : Gives I (throw e : EStateM ε σ α) (.error e) :=
  fun s hs => ⟨s, hs, rfl⟩

theorem bind_ok {work : EStateM ε σ α} {a : α} {f : α → EStateM ε σ β} {y : Except ε β}
    (hwork : Gives I work (.ok a)) (hf : Gives I (f a) y) : Gives I (work >>= f) y := by
  intro s hs
  obtain ⟨s', hs', hgives⟩ := hwork s hs
  obtain ⟨s'', hs'', hlast⟩ := hf s' hs'
  refine ⟨s'', hs'', ?_⟩
  rw [bind_eq_of_ok hgives]
  exact hlast

theorem bind {work : EStateM ε σ α} {x : Except ε α} {f : α → EStateM ε σ β}
    {g : α → Except ε β} (hwork : Gives I work x) (hf : ∀ a, Gives I (f a) (g a)) :
    Gives I (work >>= f) (x >>= g) := by
  cases x with
  | ok a => exact hwork.bind_ok (hf a)
  | error e =>
    intro s hs
    obtain ⟨s', hs', hgives⟩ := hwork s hs
    exact ⟨s', hs', bind_eq_of_error hgives⟩

theorem map {work : EStateM ε σ α} {x : Except ε α} (h : Gives I work x) (f : α → β) :
    Gives I (f <$> work) (x.map f) := by
  intro s hs
  obtain ⟨s', hs', hgives⟩ := h s hs
  refine ⟨s', hs', ?_⟩
  change EStateM.map f work s = _
  rw [EStateM.map, hgives]
  cases x <;> rfl

theorem ite {p : Prop} [Decidable p] {work work' : EStateM ε σ α} {x x' : Except ε α}
    (h : Gives I work x) (h' : Gives I work' x') :
    Gives I (if p then work else work') (if p then x else x') := by
  by_cases hp : p
  · rwa [if_pos hp, if_pos hp]
  · rwa [if_neg hp, if_neg hp]

theorem mapM {f : α → EStateM ε σ β} {g : α → Except ε β} (h : ∀ a, Gives I (f a) (g a)) :
    ∀ items : List α, Gives I (items.mapM f) (items.mapM g)
  | [] => by
    rw [List.mapM_nil, List.mapM_nil]
    exact .pure []
  | a :: items => by
    rw [List.mapM_cons, List.mapM_cons]
    exact (h a).bind fun b => (Gives.mapM h items).bind fun bs => .pure (b :: bs)

end Gives

end ILDump
