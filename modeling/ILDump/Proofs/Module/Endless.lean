import ILDump.Proofs.Module.Chains
import ILDump.Proofs.Signature.TypeTokens
import Mathlib.Order.Interval.Finset.Nat

/-!
# Names without end

Names are made to a depth of as many types inside each other as there are rows, and a name that
is not made there is said to have no end. This is no bound of its own. Going one step deeper
either names something that was not named so far, of which there is no more than there are
rows, or it changes nothing, and then no further step does. So a name that is made to any depth
at all is made to this one, and one that is not has none to any depth.

Type specifications name each other through signatures. There a step deeper does not change
what a signature is read as, unless reading it ran into a name without end.
-/

namespace ILDump

/-! ### Going deeper -/

/-- Outcomes for each depth, which settle one after the other. -/
structure Deepening {ι : Type} (outcome : Nat → ι → Except SignatureFault String) (bound : Nat) :
    Prop where
  settled : ∀ depth i, outcome depth i = .error .endless ∨ outcome (depth + 1) i = outcome depth i
  /-- A step that changes nothing is followed by no other change. -/
  same : ∀ depth, outcome (depth + 1) = outcome depth →
    outcome (depth + 1 + 1) = outcome (depth + 1)
  /-- No more than these are not settled at first and may be later. -/
  few : ∃ rows : Finset ι, rows.card ≤ bound ∧ ∀ i, outcome 0 i = .error .endless →
    i ∈ rows ∨ ∀ depth, outcome depth i = .error .endless

namespace Deepening

variable {ι : Type} {outcome : Nat → ι → Except SignatureFault String} {bound depth : Nat} {i : ι}
  (h : Deepening outcome bound)
include h

theorem endless_of_succ (hi : outcome (depth + 1) i = .error .endless) :
    outcome depth i = .error .endless := by
  rcases h.settled depth i with hendless | heq
  · exact hendless
  · rw [← heq, hi]

theorem endless_of_le {depth' : Nat} (hle : depth ≤ depth')
    (hi : outcome depth' i = .error .endless) : outcome depth i = .error .endless := by
  induction hle with
  | refl => exact hi
  | step _ ih => exact ih (h.endless_of_succ hi)

/-- If the same outcomes are not settled one step deeper, nothing has changed. -/
theorem succ_eq_of_endless (hstill : ∀ i, outcome depth i = .error .endless →
    outcome (depth + 1) i = .error .endless) : outcome (depth + 1) = outcome depth := by
  funext i
  rcases h.settled depth i with hendless | heq
  · rw [hstill i hendless, hendless]
  · exact heq

/-- By induction on the depth: as long as there are changes, fewer and fewer are not settled. -/
theorem succ_eq_of_bound : outcome (bound + 1) = outcome bound := by
  classical
  obtain ⟨rows, hcard, hrows⟩ := h.few
  let left (depth : Nat) : Finset ι := rows.filter fun i => outcome depth i = .error .endless
  have hstill {depth : Nat} (hleft : left depth ⊆ left (depth + 1)) :
      outcome (depth + 1) = outcome depth := by
    refine h.succ_eq_of_endless fun i hi => ?_
    rcases hrows i (h.endless_of_le (Nat.zero_le _) hi) with hmem | halways
    · exact (Finset.mem_filter.mp (hleft (Finset.mem_filter.mpr ⟨hmem, hi⟩))).2
    · exact halways _
  have hfewer (depth : Nat) :
      outcome (depth + 1) = outcome depth ∨ (left depth).card + depth ≤ bound := by
    induction depth with
    | zero => exact .inr (Nat.le_trans (Finset.card_filter_le _ _) hcard)
    | succ depth ih =>
      rcases ih with hsame | hle
      · exact .inl (h.same depth hsame)
      · have hsubset : left (depth + 1) ⊆ left depth :=
          Finset.monotone_filter_right _ fun i _ hi => h.endless_of_succ hi
        rcases hsubset.eq_or_ssubset with heq | hlt
        · exact .inl (h.same depth (hstill (heq ▸ Finset.Subset.refl _)))
        · have hless := Finset.card_lt_card hlt
          exact .inr (by omega)
  rcases hfewer bound with hsame | hle
  · exact hsame
  · have hnone : left bound = ∅ := Finset.card_eq_zero.mp (by omega)
    exact hstill (hnone ▸ Finset.empty_subset _)

theorem eq_of_bound_le (hle : bound ≤ depth) : outcome depth = outcome bound := by
  have hsucc : ∀ more, outcome (bound + more + 1) = outcome (bound + more) := by
    intro more
    induction more with
    | zero => exact h.succ_eq_of_bound
    | succ more ih => exact h.same _ ih
  induction hle with
  | refl => rfl
  | @step depth hle ih =>
    obtain ⟨more, rfl⟩ := Nat.exists_eq_add_of_le hle
    rw [Nat.succ_eq_add_one, hsucc more, ih]

theorem eq_of_le {deeper : Nat} (hle : depth ≤ deeper) (hi : outcome depth i ≠ .error .endless) :
    outcome deeper i = outcome depth i := by
  induction hle with
  | refl => rfl
  | @step deeper _ ih =>
    rcases h.settled deeper i with hendless | heq
    · rw [ih] at hendless
      exact absurd hendless hi
    · rw [Nat.succ_eq_add_one, heq, ih]

/-- What is settled at some depth is settled at the bound, in the same way. -/
theorem eq_of_ne_endless (hi : outcome depth i ≠ .error .endless) :
    outcome bound i = outcome depth i := by
  rcases Nat.le_total bound depth with hle | hle
  · rw [h.eq_of_bound_le hle]
  · exact h.eq_of_le hle hi

theorem eq_endless_iff :
    outcome bound i = .error .endless ↔ ∀ depth, outcome depth i = .error .endless := by
  refine ⟨fun hbound depth => ?_, fun hall => hall bound⟩
  by_contra hi
  rw [h.eq_of_ne_endless hi] at hbound
  exact hi hbound

end Deepening

/-! ### Readers -/

namespace Reader

variable {α β ν : Type}

/-- What `r` comes to, `r'` comes to as well, unless `r` runs into a name without end. -/
def Settles (r r' : Reader α) : Prop :=
  ∀ c, (∃ stop, r c = .error .endless stop) ∨ r' c = r c

namespace Settles

variable {r r' : Reader α} {f f' : α → Reader β}

theorem refl (r : Reader α) : Settles r r := fun _ => .inr rfl

theorem bind (h : Settles r r') (hf : ∀ a, Settles (f a) (f' a)) :
    Settles (r >>= f) (r' >>= f') := by
  intro c
  rcases h c with ⟨stop, hstop⟩ | heq
  · exact .inl ⟨stop, bind_eq_of_error hstop⟩
  · cases hr : r c with
    | error e stop =>
      rw [hr] at heq
      rw [bind_eq_of_error hr, bind_eq_of_error heq]
      exact .inr rfl
    | ok a c' =>
      rw [hr] at heq
      rw [bind_eq_of_ok hr, bind_eq_of_ok heq]
      exact hf a c'

theorem ite {p : Prop} [Decidable p] {q q' : Reader α} (h : Settles r r') (hq : Settles q q') :
    Settles (if p then r else q) (if p then r' else q') := by
  split
  · exact h
  · exact hq

theorem vector (h : Settles r r') :
    ∀ count, Settles (Reader.vector r count) (Reader.vector r' count)
  | 0 => refl _
  | count + 1 => h.bind fun _ => (h.vector count).bind fun _ => refl _

theorem decode (h : Settles r r') (blob : Bytes) :
    r.decode blob = .error .endless ∨ r'.decode blob = r.decode blob := by
  rcases h (Cursor.start blob) with ⟨stop, hstop⟩ | heq
  · left
    rw [Reader.decode, EStateM.run, hstop]
  · right
    rw [Reader.decode, Reader.decode, EStateM.run, EStateM.run, heq]

end Settles

section Productions

variable {resolve resolve' : Token → Except SignatureFault ν}
  (hresolve : ∀ token, resolve token = .error .endless ∨ resolve' token = resolve token)
include hresolve

theorem settles_typeName : Settles (typeName resolve) (typeName resolve') := by
  refine (Settles.refl _).bind fun token c => ?_
  rcases hresolve token with hendless | heq
  · left
    rw [hendless]
    exact ⟨c, rfl⟩
  · right
    rw [heq]

theorem settles_modifiersWithin :
    ∀ bound, Settles (modifiersWithin resolve bound) (modifiersWithin resolve' bound)
  | 0 => .refl _
  | bound + 1 => by
    have hmodifier : Settles (modifier resolve) (modifier resolve') :=
      (Settles.refl _).bind fun _ => (settles_typeName hresolve).bind fun _ => .refl _
    refine (Settles.refl _).bind fun next => ?_
    cases next with
    | none => exact .refl _
    | some b =>
      refine .ite ?_ (.refl _)
      exact hmodifier.bind fun _ => (settles_modifiersWithin bound).bind fun _ => .refl _

theorem settles_modifiers : Settles (modifiers resolve) (modifiers resolve') :=
  (Settles.refl _).bind fun bound => settles_modifiersWithin hresolve bound

variable {item item' : Reader (TypeSig ν)} (hitem : Settles item item')
include hitem

theorem settles_parameterOf : Settles (parameterOf resolve item) (parameterOf resolve' item') :=
  (settles_modifiers hresolve).bind fun _ => hitem.bind fun _ => .refl _

omit hresolve hitem in
theorem settles_methodOf {τ : Type} {parameter parameter' : Reader τ}
    (hparameter : Settles parameter parameter') :
    Settles (methodOf parameter) (methodOf parameter') := by
  have hparameters : Settles (methodParameter parameter) (methodParameter parameter') :=
    (Settles.refl _).bind fun _ => hparameter.bind fun _ => .refl _
  refine (Settles.refl _).bind fun convention =>
    .ite ((Settles.refl _).bind fun _ => ?_) ((Settles.refl _).bind fun _ => ?_)
  all_goals
    exact (Settles.refl _).bind fun count => hparameter.bind fun _ =>
      (hparameters.vector count).bind fun _ => .refl _

/-- By the cases of the element byte. -/
theorem settles_typeAfter (element : UInt8) :
    Settles (typeAfter resolve item element) (typeAfter resolve' item' element) := by
  have hname := settles_typeName hresolve
  have hmodifiers := settles_modifiers hresolve
  rw [typeAfter, typeAfter]
  cases Primitive.ofCode? element with
  | some p => exact .refl _
  | none =>
    refine .ite (hname.bind fun _ => .refl _) <| .ite (hname.bind fun _ => .refl _) <|
      .ite (hmodifiers.bind fun _ => hitem.bind fun _ => .refl _) <|
      .ite (hitem.bind fun _ => .refl _) <|
      .ite (hmodifiers.bind fun _ => hitem.bind fun _ => .refl _) <|
      .ite (hitem.bind fun _ => .refl _) <| .ite (.refl _) <| .ite (.refl _) <|
      .ite ?generic <| .ite ?function <| .ite (hitem.bind fun _ => .refl _) (.refl _)
    case generic =>
      exact (Settles.refl _).bind fun _ => hname.bind fun _ => (Settles.refl _).bind fun count =>
        (hitem.vector count).bind fun _ => .refl _
    case function =>
      exact (settles_methodOf (settles_parameterOf hresolve hitem)).bind fun _ => .refl _

theorem settles_typeOf : Settles (typeOf resolve item) (typeOf resolve' item') := by
  refine (Settles.refl _).bind fun next => .ite ?_ ?_
  · exact (settles_modifiers hresolve).bind fun _ => hitem.bind fun _ => .refl _
  · exact (Settles.refl _).bind fun element => settles_typeAfter hresolve hitem element

omit hitem in
theorem settles_typeWithin : ∀ bound, Settles (typeWithin resolve bound) (typeWithin resolve' bound)
  | 0 => .refl _
  | bound + 1 => settles_typeOf hresolve (settles_typeWithin bound)

omit hitem in
theorem settles_type : Settles (type resolve) (type resolve') :=
  (Settles.refl _).bind fun left => settles_typeWithin hresolve (left + 1)

end Productions

end Reader

/-! ### Names -/

namespace Tables

variable (t : Tables)

theorem endless_or_eq_ite {p : Prop} [Decidable p] {x y x' y' : Except SignatureFault String}
    (hx : x = .error .endless ∨ x' = x) (hy : y = .error .endless ∨ y' = y) :
    (if p then x else y) = .error .endless ∨ (if p then x' else y') = if p then x else y := by
  split
  · exact hx
  · exact hy

theorem deepening_typeRefName : Deepening t.typeRefNameWithin t.typeRefs.length where
  settled depth := by
    induction depth with
    | zero =>
      intro n
      unfold typeRefNameWithin
      cases row? t.typeRefs n with
      | none => exact .inr rfl
      | some r =>
        dsimp only
        cases r.scope? with
        | none => exact .inr rfl
        | some scope =>
          exact endless_or_eq_ite (.inr rfl) <| endless_or_eq_ite (.inl rfl) (.inr rfl)
    | succ depth ih =>
      intro n
      unfold typeRefNameWithin
      cases row? t.typeRefs n with
      | none => exact .inr rfl
      | some r =>
        dsimp only
        cases r.scope? with
        | none => exact .inr rfl
        | some scope =>
          refine endless_or_eq_ite (.inr rfl) <| endless_or_eq_ite ?_ (.inr rfl)
          rcases ih scope.row with hendless | heq
          · left
            simp only [hendless]
            rfl
          · right
            simp only [heq]
  same depth h := by
    funext n
    unfold typeRefNameWithin
    simp only [h]
  few := by
    refine ⟨Finset.Icc 1 t.typeRefs.length, by simp, fun n hn => ?_⟩
    unfold typeRefNameWithin at hn
    cases hrow : row? t.typeRefs n with
    | none =>
      rw [hrow] at hn
      cases hn
    | some r => exact .inl (Finset.mem_Icc.mpr (bounds_of_row? hrow))

/-- A type specification is read one step deeper as it was, unless a name in it had no end. -/
theorem deepening_typeName : Deepening t.typeNameWithin t.typeSpecs.length where
  settled depth := by
    induction depth with
    | zero =>
      intro token
      unfold typeNameWithin
      refine endless_or_eq_ite (.inr rfl) <| endless_or_eq_ite (.inr rfl) <|
        endless_or_eq_ite ?_ (.inr rfl)
      cases row? t.typeSpecs token.row with
      | none => exact .inr rfl
      | some signature => exact .inl rfl
    | succ depth ih =>
      intro token
      unfold typeNameWithin
      refine endless_or_eq_ite (.inr rfl) <| endless_or_eq_ite (.inr rfl) <|
        endless_or_eq_ite ?_ (.inr rfl)
      cases row? t.typeSpecs token.row with
      | none => exact .inr rfl
      | some signature =>
        rcases (Reader.settles_type ih).decode signature with hendless | heq
        · left
          simp only [hendless]
          rfl
        · right
          simp only [heq]
  same depth h := by
    funext token
    unfold typeNameWithin
    simp only [h]
  few := by
    refine ⟨(Finset.Icc 1 t.typeSpecs.length).image (Token.ofRow TableNumber.typeSpec),
      Nat.le_trans Finset.card_image_le (by simp), fun token htoken => ?_⟩
    by_cases hspec : token.table = TableNumber.typeSpec
    · cases hrow : row? t.typeSpecs token.row with
      | some signature =>
        refine .inl (Finset.mem_image.mpr ⟨token.row, Finset.mem_Icc.mpr (bounds_of_row? hrow), ?_⟩)
        rw [← hspec, Reader.ofRow_table_row]
      | none =>
        unfold typeNameWithin at htoken
        rw [hspec, hrow] at htoken
        cases htoken
    · refine .inr fun depth => ?_
      rw [← htoken]
      unfold typeNameWithin
      rw [if_neg hspec, if_neg hspec]

variable {t} {depth : Nat}

/-- **The depth is no part of a name.** What has a name to some depth has that name, and what has
    none has none to any depth. -/
theorem typeName_eq_of_ne_endless {token : Token}
    (h : t.typeNameWithin depth token ≠ .error .endless) :
    t.typeName token = t.typeNameWithin depth token :=
  t.deepening_typeName.eq_of_ne_endless h

theorem typeName_eq_endless_iff {token : Token} :
    t.typeName token = .error .endless ↔
      ∀ depth, t.typeNameWithin depth token = .error .endless :=
  t.deepening_typeName.eq_endless_iff

theorem typeRefName_eq_of_ne_endless {n : Nat}
    (h : t.typeRefNameWithin depth n ≠ .error .endless) :
    t.typeRefName n = t.typeRefNameWithin depth n :=
  t.deepening_typeRefName.eq_of_ne_endless h

theorem typeRefName_eq_endless_iff {n : Nat} :
    t.typeRefName n = .error .endless ↔ ∀ depth, t.typeRefNameWithin depth n = .error .endless :=
  t.deepening_typeRefName.eq_endless_iff

end Tables

end ILDump
