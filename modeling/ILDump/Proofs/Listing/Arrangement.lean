import ILDump.Listing.MemberOrder
import Mathlib.Data.List.Forall2
import Mathlib.Data.List.Nodup

/-!
# Arranging by name

Sort keys are totally ordered, so siblings with pairwise different keys have exactly one
arrangement by name. Whatever is written for each of them is therefore written in an
order that does not depend on the one they came in. `Shuffled` says that siblings came in
another order, and `arrange_byName_map_eq` that nothing of it is left after arranging.
-/

namespace ILDump

/-! ### The order of keys -/
namespace SortKey

theorem le_iff {a b : SortKey} :
    a.le b = true ↔ a.name < b.name ∨ (a.name = b.name ∧ a.detail ≤ b.detail) := by
  simp only [SortKey.le, Bool.or_eq_true, Bool.and_eq_true, decide_eq_true_eq, beq_iff_eq,
    Bool.not_eq_true', decide_eq_false_iff_not, String.not_lt]

theorem le_trans {a b c : SortKey} (hab : a.le b = true) (hbc : b.le c = true) :
    a.le c = true := by
  rw [le_iff] at *
  rcases hab with hab | ⟨nab, dab⟩
  · rcases hbc with hbc | ⟨nbc, -⟩
    · exact .inl (String.lt_trans hab hbc)
    · exact .inl (nbc ▸ hab)
  · rcases hbc with hbc | ⟨nbc, dbc⟩
    · exact .inl (nab ▸ hbc)
    · exact .inr ⟨nab.trans nbc, String.le_trans dab dbc⟩

theorem le_total (a b : SortKey) : (a.le b || b.le a) = true := by
  rw [Bool.or_eq_true, le_iff, le_iff]
  by_cases hab : a.name < b.name
  · exact .inl (.inl hab)
  · by_cases hba : b.name < a.name
    · exact .inr (.inl hba)
    · have hn : a.name = b.name :=
        String.le_antisymm (String.not_lt.mp hba) (String.not_lt.mp hab)
      rcases String.le_total a.detail b.detail with hd | hd
      · exact .inl (.inr ⟨hn, hd⟩)
      · exact .inr (.inr ⟨hn.symm, hd⟩)

theorem le_antisymm {a b : SortKey} (hab : a.le b = true) (hba : b.le a = true) : a = b := by
  rw [le_iff] at *
  have hirr : ∀ s : String, ¬ s < s := String.lt_irrefl
  rcases hab with hab | ⟨nab, dab⟩
  · rcases hba with hba | ⟨nba, -⟩
    · exact absurd (String.lt_trans hab hba) (hirr _)
    · exact absurd (nba ▸ hab) (hirr _)
  · rcases hba with hba | ⟨-, dba⟩
    · exact absurd (nab ▸ hba) (hirr _)
    · cases a
      cases b
      simp only [SortKey.mk.injEq]
      exact ⟨nab, String.le_antisymm dab dba⟩

end SortKey

/-! ### Siblings with different keys -/

/-- No two siblings have the same key. -/
def DistinctKeys {α : Type} [Listed α] (xs : List α) : Prop :=
  (xs.map Listed.sortKey).Nodup

instance {α : Type} [Listed α] (xs : List α) : Decidable (DistinctKeys xs) :=
  inferInstanceAs (Decidable (xs.map Listed.sortKey).Nodup)

/-- Siblings that came in another order, each of them related to the one it was before. -/
def Shuffled {α : Type} (r : α → α → Prop) (xs ys : List α) : Prop :=
  ∃ zs, List.Forall₂ r xs zs ∧ zs.Perm ys

theorem map_eq_of_forall₂ {α β : Type} {r : α → α → Prop} {f : α → β} {xs ys : List α}
    (h : List.Forall₂ r xs ys) (hf : ∀ x ∈ xs, ∀ y, r x y → f x = f y) :
    xs.map f = ys.map f := by
  induction h with
  | nil => rfl
  | @cons x y xs ys hxy _ ih =>
    have hhead : f x = f y := hf x (by simp) y hxy
    have htail : xs.map f = ys.map f := ih fun x hx => hf x (by simp [hx])
    rw [List.map_cons, List.map_cons, hhead, htail]

namespace Shuffled

variable {α β : Type} {r : α → α → Prop} {xs ys : List α}

theorem isEmpty_eq (h : Shuffled r xs ys) : xs.isEmpty = ys.isEmpty := by
  obtain ⟨zs, hr, hp⟩ := h
  have hl : xs.length = ys.length := hr.length_eq.trans hp.length_eq
  cases xs <;> cases ys <;> simp_all

theorem map_perm {f : α → β} (h : Shuffled r xs ys) (hf : ∀ x ∈ xs, ∀ y, r x y → f x = f y) :
    (xs.map f).Perm (ys.map f) := by
  obtain ⟨zs, hr, hp⟩ := h
  rw [map_eq_of_forall₂ hr hf]
  exact hp.map f

end Shuffled

namespace MemberOrder

variable {α β : Type} [Listed α]

theorem arrange_perm (order : MemberOrder) (xs : List α) : (order.arrange xs).Perm xs := by
  cases order with
  | byName => exact List.mergeSort_perm xs _
  | asDeclared => exact List.Perm.refl xs
  | byToken => exact List.mergeSort_perm xs _

theorem arrange_byName_pairwise (xs : List α) :
    (byName.arrange xs).Pairwise fun x y => (Listed.sortKey x).le (Listed.sortKey y) = true := by
  refine List.pairwise_mergeSort ?_ ?_ xs
  · intro a b c hab hbc
    exact SortKey.le_trans hab hbc
  · intro a b
    exact SortKey.le_total (Listed.sortKey a) (Listed.sortKey b)

/-- What goes along with siblings does not change their arrangement. -/
theorem arrange_map_pair (order : MemberOrder) (f : α → β) (xs : List α) :
    order.arrange (xs.map fun x => (x, f x)) = (order.arrange xs).map fun x => (x, f x) := by
  cases order with
  | asDeclared => rfl
  | byName =>
    simp only [arrange]
    rw [List.map_mergeSort]
    intro a _ b _
    rfl
  | byToken =>
    simp only [arrange]
    rw [List.map_mergeSort]
    intro a _ b _
    rfl

/-- **Arranging by name forgets the order.** Siblings with different keys, shuffled in a way
    that keeps each one's key and what `f` makes of it, give the same sequence of `f`s once
    they are arranged. -/
theorem arrange_byName_map_eq {r : α → α → Prop} {f : α → β} {xs ys : List α}
    (hd : DistinctKeys xs) (h : Shuffled r xs ys)
    (hr : ∀ x ∈ xs, ∀ y, r x y → Listed.sortKey x = Listed.sortKey y ∧ f x = f y) :
    (byName.arrange xs).map f = (byName.arrange ys).map f := by
  let tag : α → SortKey × β := fun x => (Listed.sortKey x, f x)
  -- with its key beside it, an entry is determined by its key alone
  have hperm : ((byName.arrange xs).map tag).Perm ((byName.arrange ys).map tag) := by
    have hxy : (xs.map tag).Perm (ys.map tag) :=
      h.map_perm fun x hx y hxy => Prod.ext (hr x hx y hxy).1 (hr x hx y hxy).2
    exact (((arrange_perm byName xs).map tag).trans hxy).trans
      ((arrange_perm byName ys).map tag).symm
  have hsorted : ∀ l : List α, ((byName.arrange l).map tag).Pairwise
      fun a b => a.1.le b.1 = true := by
    intro l
    rw [List.pairwise_map]
    exact arrange_byName_pairwise l
  have hinj : ∀ a ∈ (byName.arrange xs).map tag, ∀ b ∈ (byName.arrange xs).map tag,
      a.1 = b.1 → a = b := by
    have hkeys : (((byName.arrange xs).map tag).map Prod.fst).Nodup := by
      rw [List.map_map]
      exact (((arrange_perm byName xs).map _).nodup_iff).mpr hd
    intro a ha b hb hab
    exact List.inj_on_of_nodup_map hkeys ha hb hab
  have heq : (byName.arrange xs).map tag = (byName.arrange ys).map tag := by
    refine List.Perm.eq_of_pairwise ?_ (hsorted xs) (hsorted ys) hperm
    intro a b ha hb hab hba
    exact hinj a ha b (hperm.mem_iff.mpr hb) (SortKey.le_antisymm hab hba)
  have hsnd : ∀ l : List α, (l.map tag).map Prod.snd = l.map f := fun l => List.map_map
  rw [← hsnd, heq, hsnd]

end MemberOrder

end ILDump
