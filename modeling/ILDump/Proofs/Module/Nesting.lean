import ILDump.Module.Loader
import Mathlib.Data.List.Nodup
import Mathlib.Data.List.Perm.Subperm
import Mathlib.Logic.Relation

/-!
# Types inside types

Each row of the types has at most one type around it, named by the last of its nesting
rows. If no type stands inside itself, every row has a level, the number of types around
it, and there are fewer levels than rows. So a walk from the top that goes as deep as
there are rows comes to every row, and it comes to each of them once.
-/

namespace ILDump

/-- The first entry from the end is the last one. -/
theorem find?_reverse_eq_some_iff {α : Type} {p : α → Bool} {xs : List α} {a : α} :
    xs.reverse.find? p = some a ↔
      p a ∧ ∃ before after, xs = before ++ a :: after ∧ ∀ later ∈ after, p later = false := by
  rw [List.find?_eq_some_iff_append]
  refine and_congr_right fun _ => ⟨?_, ?_⟩
  · rintro ⟨front, back, hsplit, hfront⟩
    refine ⟨back.reverse, front.reverse, ?_, by simpa using hfront⟩
    have hreverse := congrArg List.reverse hsplit
    simpa using hreverse
  · rintro ⟨before, after, rfl, hafter⟩
    exact ⟨after.reverse, before.reverse, by simp, by simpa using hafter⟩

namespace Loader

variable {t : Tables}

/-! ### The type around a type -/

/-- Of the nesting rows of a type, the last one says what type it stands in. It counts if
    that type is there and another one. -/
theorem parent?_eq_some_iff {n outer : Nat} :
    parent? t n = some outer ↔
      (∃ before after, t.nestedClasses = before ++ ⟨n, outer⟩ :: after ∧
        ∀ r ∈ after, r.nested ≠ n) ∧
      outer ≠ n ∧ outer ≠ 0 ∧ outer ≤ t.typeDefs.length := by
  have hparent : parent? t n = some outer ↔
      t.enclosing n = outer ∧ outer ≠ n ∧ outer ≠ 0 ∧ outer ≤ t.typeDefs.length := by
    rw [parent?, Option.filter_eq_some_iff, Tables.outer?]
    constructor
    · rintro ⟨houter, hle⟩
      split at houter
      · cases houter
      · obtain rfl := Option.some.inj houter
        exact ⟨rfl, by tauto, by tauto, by simpa using hle⟩
    · rintro ⟨rfl, hself, hzero, hle⟩
      exact ⟨by simp [hself, hzero], by simpa using hle⟩
  rw [hparent]
  constructor
  · rintro ⟨henclosing, hself, hzero, hle⟩
    refine ⟨?_, hself, hzero, hle⟩
    rw [Tables.enclosing] at henclosing
    cases hfind : t.nestedClasses.reverse.find? fun r => decide (r.nested = n) with
    | none =>
      rw [hfind] at henclosing
      exact absurd henclosing.symm hzero
    | some r =>
      rw [hfind] at henclosing
      obtain ⟨hr, before, after, hsplit, hafter⟩ := find?_reverse_eq_some_iff.mp hfind
      obtain rfl : r.nested = n := by simpa using hr
      obtain rfl : r.enclosing = outer := henclosing
      exact ⟨before, after, hsplit, by simpa using hafter⟩
  · rintro ⟨⟨before, after, hsplit, hafter⟩, hself, hzero, hle⟩
    refine ⟨?_, hself, hzero, hle⟩
    have hfind : t.nestedClasses.reverse.find? (fun r => decide (r.nested = n)) =
        some ⟨n, outer⟩ :=
      find?_reverse_eq_some_iff.mpr ⟨by simp, before, after, hsplit, by simpa using hafter⟩
    rw [Tables.enclosing, hfind]
    rfl

def Inside (t : Tables) (n outer : Nat) : Prop :=
  parent? t n = some outer

/-- No type stands inside itself, through however many others. -/
def NoCycles (t : Tables) : Prop :=
  ∀ n, ¬ Relation.TransGen (Inside t) n n

theorem noCycles_of_lt (h : ∀ n outer, Inside t n outer → outer < n) : NoCycles t := by
  intro n hcycle
  have hlt : ∀ m, Relation.TransGen (Inside t) n m → m < n := by
    intro m hm
    induction hm with
    | single hinside => exact h _ _ hinside
    | tail _ hinside ih => exact Nat.lt_trans (h _ _ hinside) ih
  exact absurd (hlt n hcycle) (Nat.lt_irrefl n)

def IsTypeRow (t : Tables) (n : Nat) : Prop :=
  1 ≤ n ∧ n ≤ t.typeDefs.length

theorem mem_typeRows {n : Nat} : n ∈ List.range' 1 t.typeDefs.length ↔ IsTypeRow t n := by
  rw [List.mem_range'_1, IsTypeRow]
  omega

theorem mem_childrenOf {n : Nat} {outer? : Option Nat} :
    n ∈ childrenOf t outer? ↔ IsTypeRow t n ∧ parent? t n = outer? := by
  rw [childrenOf, List.mem_filter, mem_typeRows, decide_eq_true_eq]

theorem childrenOf_pairwise (outer? : Option Nat) : (childrenOf t outer?).Pairwise (· < ·) :=
  (List.pairwise_lt_range' 1 (by omega)).filter _

theorem isTypeRow_of_inside {n outer : Nat} (h : Inside t n outer) : IsTypeRow t outer := by
  obtain ⟨-, -, hzero, hle⟩ := parent?_eq_some_iff.mp h
  exact ⟨Nat.pos_of_ne_zero hzero, hle⟩

/-! ### Levels -/

/-- How many types there are around a type. -/
inductive Level (t : Tables) : Nat → Nat → Prop where
  | top {n : Nat} : parent? t n = none → Level t n 0
  | inside {n outer k : Nat} : parent? t n = some outer → Level t outer k → Level t n (k + 1)

theorem Level.unique {n k : Nat} (h : Level t n k) : ∀ {k'}, Level t n k' → k = k' := by
  induction h with
  | top hnone =>
    intro k' h'
    cases h' with
    | top _ => rfl
    | inside hsome _ => simp [hnone] at hsome
  | inside hsome _ ih =>
    intro k' h'
    cases h' with
    | top hnone => simp [hnone] at hsome
    | inside hsome' h' =>
      obtain rfl : _ = _ := Option.some.inj (hsome.symm.trans hsome')
      rw [ih h']

theorem length_le_of_nodup {rows : List Nat} (hnodup : rows.Nodup)
    (hrows : ∀ n ∈ rows, IsTypeRow t n) : rows.length ≤ t.typeDefs.length := by
  have hsub : rows ⊆ List.range' 1 t.typeDefs.length := fun n hn => mem_typeRows.mpr (hrows n hn)
  simpa using (hnodup.subperm hsub).length_le

/-- A type around others that lie inside each other is none of them. -/
theorem nodup_of_chain (hacyclic : NoCycles t) {n outer : Nat} {met : List Nat}
    (hnodup : (n :: met).Nodup) (hmet : ∀ m ∈ met, Relation.TransGen (Inside t) m n)
    (houter : Inside t n outer) : (outer :: n :: met).Nodup := by
  refine List.nodup_cons.mpr ⟨?_, hnodup⟩
  intro hmem
  rcases List.mem_cons.mp hmem with rfl | hmem
  · exact hacyclic outer (.single houter)
  · exact hacyclic outer ((hmet outer hmem).tail houter)

/-- Going up from a type, along rows that were not met before. There are no more steps than
    rows that are left, since coming back to a row met before would close a cycle. -/
theorem exists_level_of_chain (hacyclic : NoCycles t) (left : Nat) :
    ∀ (n : Nat) (met : List Nat), (n :: met).Nodup → (∀ m ∈ n :: met, IsTypeRow t m) →
      (∀ m ∈ met, Relation.TransGen (Inside t) m n) →
      (n :: met).length + left = t.typeDefs.length → ∃ k, k ≤ left ∧ Level t n k := by
  induction left with
  | zero =>
    intro n met hnodup hrows hmet hlength
    cases hparent : parent? t n with
    | none => exact ⟨0, Nat.le_refl 0, .top hparent⟩
    | some outer =>
      have hmore := length_le_of_nodup (nodup_of_chain hacyclic hnodup hmet hparent)
        (List.forall_mem_cons.mpr ⟨isTypeRow_of_inside hparent, hrows⟩)
      simp only [List.length_cons] at hmore hlength
      omega
  | succ left ih =>
    intro n met hnodup hrows hmet hlength
    cases hparent : parent? t n with
    | none => exact ⟨0, Nat.zero_le _, .top hparent⟩
    | some outer =>
      have hreach : ∀ m ∈ n :: met, Relation.TransGen (Inside t) m outer := by
        intro m hm
        rcases List.mem_cons.mp hm with rfl | hm
        · exact .single hparent
        · exact (hmet m hm).tail hparent
      obtain ⟨k, hk, hlevel⟩ := ih outer (n :: met)
        (nodup_of_chain hacyclic hnodup hmet hparent)
        (List.forall_mem_cons.mpr ⟨isTypeRow_of_inside hparent, hrows⟩) hreach
        (by simp only [List.length_cons] at hlength ⊢; omega)
      exact ⟨k + 1, by omega, .inside hparent hlevel⟩

theorem exists_level (hacyclic : NoCycles t) {n : Nat} (hn : IsTypeRow t n) :
    ∃ k, k < t.typeDefs.length ∧ Level t n k := by
  obtain ⟨hpos, hle⟩ := hn
  obtain ⟨k, hk, hlevel⟩ := exists_level_of_chain hacyclic (t.typeDefs.length - 1) n []
    (by simp) (by simpa using ⟨hpos, hle⟩) (by simp) (by simp; omega)
  exact ⟨k, by omega, hlevel⟩

/-! ### Walking down from the top -/

/-- The rows below a type or at the top, at most `depth` deep, each before those in it. -/
def rowsIn (t : Tables) : Nat → Option Nat → List Nat
  | 0, _ => []
  | depth + 1, outer? => (childrenOf t outer?).flatMap fun n => n :: rowsIn t depth (some n)

theorem mem_rowsIn_succ {depth m : Nat} {outer? : Option Nat} :
    m ∈ rowsIn t (depth + 1) outer? ↔
      ∃ n ∈ childrenOf t outer?, m = n ∨ m ∈ rowsIn t depth (some n) := by
  simp only [rowsIn, List.mem_flatMap, List.mem_cons]

theorem isTypeRow_of_mem_rowsIn {m : Nat} : ∀ {depth : Nat} {outer? : Option Nat},
    m ∈ rowsIn t depth outer? → IsTypeRow t m
  | depth + 1, outer?, hm => by
    obtain ⟨n, hn, rfl | hm⟩ := mem_rowsIn_succ.mp hm
    · exact (mem_childrenOf.mp hn).1
    · exact isTypeRow_of_mem_rowsIn hm

theorem rowsIn_subset_succ {m : Nat} : ∀ {depth : Nat} {outer? : Option Nat},
    m ∈ rowsIn t depth outer? → m ∈ rowsIn t (depth + 1) outer?
  | depth + 1, outer?, hm => by
    obtain ⟨n, hn, rfl | hm⟩ := mem_rowsIn_succ.mp hm
    · exact mem_rowsIn_succ.mpr ⟨m, hn, .inl rfl⟩
    · exact mem_rowsIn_succ.mpr ⟨n, hn, .inr (rowsIn_subset_succ hm)⟩

theorem rowsIn_subset {m depth : Nat} {outer? : Option Nat} (hm : m ∈ rowsIn t depth outer?) :
    ∀ {depth'}, depth ≤ depth' → m ∈ rowsIn t depth' outer? := by
  intro depth' hle
  induction hle with
  | refl => exact hm
  | step _ ih => exact rowsIn_subset_succ ih

/-- A walk that comes to a type comes to the types in it one step later. -/
theorem mem_rowsIn_of_inside {n m : Nat} (hn : IsTypeRow t n) (hinside : Inside t n m) :
    ∀ {depth : Nat} {outer? : Option Nat}, m ∈ rowsIn t depth outer? →
      n ∈ rowsIn t (depth + 1) outer?
  | depth + 1, outer?, hm => by
    obtain ⟨k, hk, rfl | hm⟩ := mem_rowsIn_succ.mp hm
    · refine mem_rowsIn_succ.mpr ⟨m, hk, .inr ?_⟩
      exact mem_rowsIn_succ.mpr ⟨n, mem_childrenOf.mpr ⟨hn, hinside⟩, .inl rfl⟩
    · exact mem_rowsIn_succ.mpr ⟨k, hk, .inr (mem_rowsIn_of_inside hn hinside hm)⟩

theorem mem_rowsIn_of_level {n k : Nat} (hlevel : Level t n k) :
    IsTypeRow t n → n ∈ rowsIn t (k + 1) none := by
  induction hlevel with
  | @top n hparent =>
    intro hn
    exact mem_rowsIn_succ.mpr ⟨n, mem_childrenOf.mpr ⟨hn, hparent⟩, .inl rfl⟩
  | inside hparent _ ih =>
    intro hn
    exact mem_rowsIn_of_inside hn hparent (ih (isTypeRow_of_inside hparent))

/-- What is found below a type or at the top lies in one of the types directly there. -/
theorem exists_reaches_of_mem_rowsIn {m : Nat} : ∀ {depth : Nat} {outer? : Option Nat},
    m ∈ rowsIn t depth outer? →
      ∃ n ∈ childrenOf t outer?, Relation.ReflTransGen (Inside t) m n
  | depth + 1, outer?, hm => by
    obtain ⟨n, hn, rfl | hm⟩ := mem_rowsIn_succ.mp hm
    · exact ⟨m, hn, .refl⟩
    · obtain ⟨k, hk, hreach⟩ := exists_reaches_of_mem_rowsIn hm
      exact ⟨n, hn, hreach.tail (mem_childrenOf.mp hk).2⟩

/-- Two types side by side do not lie in each other. -/
theorem eq_of_reaches (hacyclic : NoCycles t) {n n' : Nat} {outer? : Option Nat}
    (hn : n ∈ childrenOf t outer?) (hn' : n' ∈ childrenOf t outer?)
    (hreach : Relation.ReflTransGen (Inside t) n n') : n = n' := by
  rcases hreach.cases_head with heq | ⟨outer, hinside, hreach⟩
  · exact heq
  · -- the type around both would lie in `n'`, which lies in it
    have houter : Inside t n' outer := by
      rw [Inside, (mem_childrenOf.mp hn').2, ← (mem_childrenOf.mp hn).2]
      exact hinside
    exact absurd (Relation.TransGen.tail' hreach houter) (hacyclic outer)

theorem nodup_rowsIn (hacyclic : NoCycles t) : ∀ (depth : Nat) (outer? : Option Nat),
    (rowsIn t depth outer?).Nodup
  | 0, _ => List.nodup_nil
  | depth + 1, outer? => by
    rw [rowsIn, List.nodup_flatMap]
    constructor
    · intro n hn
      refine List.nodup_cons.mpr ⟨?_, nodup_rowsIn hacyclic depth (some n)⟩
      intro hmem
      obtain ⟨k, hk, hreach⟩ := exists_reaches_of_mem_rowsIn hmem
      exact hacyclic n (Relation.TransGen.tail' hreach (mem_childrenOf.mp hk).2)
    · have hreaches {n m : Nat} (hm : m ∈ n :: rowsIn t depth (some n)) :
          Relation.ReflTransGen (Inside t) m n := by
        rcases List.mem_cons.mp hm with rfl | hm
        · exact .refl
        · obtain ⟨k, hk, hreach⟩ := exists_reaches_of_mem_rowsIn hm
          exact hreach.tail (mem_childrenOf.mp hk).2
      refine (childrenOf_pairwise outer?).imp_of_mem ?_
      intro n n' hn hn' hlt
      refine List.disjoint_left.mpr fun m hm hm' => ?_
      have htotal := Relation.ReflTransGen.total_of_right_unique
        (fun a b c hb hc => Option.some.inj (hb.symm.trans hc)) (hreaches hm) (hreaches hm')
      rcases htotal with hreach | hreach
      · exact absurd (eq_of_reaches hacyclic hn hn' hreach) (by omega)
      · exact absurd (eq_of_reaches hacyclic hn' hn hreach) (by omega)

/-- **A walk from the top comes to every row of the types, and to each of them once.** -/
theorem rowsIn_perm (hacyclic : NoCycles t) :
    (rowsIn t t.typeDefs.length none).Perm (List.range' 1 t.typeDefs.length) := by
  refine (List.perm_ext_iff_of_nodup (nodup_rowsIn hacyclic _ none) List.nodup_range').mpr ?_
  intro n
  rw [mem_typeRows]
  constructor
  · exact isTypeRow_of_mem_rowsIn
  · intro hn
    obtain ⟨k, hk, hlevel⟩ := exists_level hacyclic hn
    exact rowsIn_subset (mem_rowsIn_of_level hlevel hn) hk

end Loader

end ILDump
