import ILDump.Module.Attachments
import ILDump.Proofs.Outcomes

/-!
# What is attached to a row

Accessors and generic parameters stand in side tables, scattered over rows that name their
owner. The listing sorts those of one owner by a number and a text. Two of them with the same
number and text are the same, so the sorted list is the only one in its order, and only
how often each was recorded matters.
-/

namespace ILDump

/-! ### Sorting by number and text -/

/-- By number, and by text where the numbers are the same. -/
def InOrder (a b : Nat × String) : Prop :=
  a.1 < b.1 ∨ a.1 = b.1 ∧ a.2 ≤ b.2

namespace InOrder

theorem trans {a b c : Nat × String} (hab : InOrder a b) (hbc : InOrder b c) : InOrder a c := by
  rcases hab with hab | ⟨nab, hab⟩
  · rcases hbc with hbc | ⟨nbc, -⟩
    · exact .inl (Nat.lt_trans hab hbc)
    · exact .inl (nbc ▸ hab)
  · rcases hbc with hbc | ⟨nbc, hbc⟩
    · exact .inl (nab ▸ hbc)
    · exact .inr ⟨nab.trans nbc, String.le_trans hab hbc⟩

theorem total (a b : Nat × String) : InOrder a b ∨ InOrder b a := by
  rcases Nat.lt_trichotomy a.1 b.1 with hab | hab | hab
  · exact .inl (.inl hab)
  · rcases String.le_total a.2 b.2 with h | h
    · exact .inl (.inr ⟨hab, h⟩)
    · exact .inr (.inr ⟨hab.symm, h⟩)
  · exact .inr (.inl hab)

theorem antisymm {a b : Nat × String} (hab : InOrder a b) (hba : InOrder b a) : a = b := by
  rcases hab with hab | ⟨nab, hab⟩
  · rcases hba with hba | ⟨nba, -⟩
    · exact absurd (Nat.lt_trans hab hba) (Nat.lt_irrefl _)
    · exact absurd (nba ▸ hab) (Nat.lt_irrefl _)
  · rcases hba with hba | ⟨-, hba⟩
    · exact absurd (nab ▸ hba) (Nat.lt_irrefl _)
    · exact Prod.ext nab (String.le_antisymm hab hba)

end InOrder

section Sorted

variable {α : Type}

def SortedBy (key : α → Nat × String) (xs : List α) : Prop :=
  xs.Pairwise fun a b => InOrder (key a) (key b)

/-- The comparison is the one that both sorts of the loader come to. -/
theorem sortedBy_mergeSort (key : α → Nat × String) (xs : List α) :
    SortedBy key (xs.mergeSort fun a b => decide ((key a).1 < (key b).1) ||
      ((key a).1 == (key b).1 && !decide ((key b).2 < (key a).2))) := by
  have hle (a b : α) : (decide ((key a).1 < (key b).1) ||
      ((key a).1 == (key b).1 && !decide ((key b).2 < (key a).2))) = true ↔
        InOrder (key a) (key b) := by
    simp only [InOrder, Bool.or_eq_true, Bool.and_eq_true, decide_eq_true_eq, beq_iff_eq,
      Bool.not_eq_true', decide_eq_false_iff_not, String.not_lt]
  refine (List.pairwise_mergeSort ?_ ?_ xs).imp fun h => (hle _ _).mp h
  · intro a b c hab hbc
    exact (hle a c).mpr (((hle a b).mp hab).trans ((hle b c).mp hbc))
  · intro a b
    rw [Bool.or_eq_true, hle, hle]
    exact InOrder.total _ _

theorem SortedBy.eq_of_perm {key : α → Nat × String} {xs ys : List α} (hxs : SortedBy key xs)
    (hys : SortedBy key ys) (hperm : xs.Perm ys)
    (hkey : ∀ a ∈ xs, ∀ b ∈ xs, key a = key b → a = b) : xs = ys := by
  refine List.Perm.eq_of_pairwise (fun a b ha hb hab hba => ?_) hxs hys hperm
  exact hkey a ha b (hperm.mem_iff.mpr hb) (hab.antisymm hba)

end Sorted

/-! ### Recorded accessors -/

/-- What a row records for a property or event: directives, each with the row of the
    method. -/
def SemanticsRow.recorded (r : SemanticsRow) (token : Token) : List (String × Nat) :=
  if r.association? = some token ∧ r.method ≠ 0 then
    (Flags.wordsOf r.flags Flags.accessorDirectives).map (·, r.method)
  else []

def Tables.recordedAccessors (t : Tables) (token : Token) : List (String × Nat) :=
  t.semantics.flatMap (·.recorded token)

/-- Whether an accessor shows what was recorded. -/
def Tables.Shows (t : Tables) (r : String × Nat) (a : Accessor) : Prop :=
  a.directive = r.1 ∧ t.methodDefText r.2 [] = .ok a.method

namespace Accessor

def directiveOrder : List String :=
  Flags.accessorDirectives.map (·.2)

/-- The place of the directive in the listing order, and the text of the method. -/
def key (a : Accessor) : Nat × String :=
  (directiveOrder.idxOf a.directive, a.method)

theorem eq_of_key_eq {a b : Accessor} (ha : a.directive ∈ directiveOrder) (h : a.key = b.key) :
    a = b := by
  obtain ⟨hplace, hmethod⟩ := Prod.mk.inj h
  cases a
  cases b
  exact congrArg₂ _ ((List.idxOf_inj ha).mp hplace) hmethod

theorem directive_eq_get_iff (a : Accessor) : a.directive = ".get" ↔ a.key.1 = 0 := by
  have hfirst := List.idxOf_eq_zero_iff_head_eq (l := directiveOrder) (a := a.directive) (by decide)
  rw [key, hfirst]
  exact eq_comm

end Accessor

/-- The accessors of a property or event as they have to be listed. -/
structure AccessorsOf (t : Tables) (token : Token) (as : List Accessor) : Prop where
  /-- They are the recorded ones, each as often as it was recorded. -/
  recorded : ∃ found, List.Forall₂ t.Shows (t.recordedAccessors token) found ∧ as.Perm found
  sorted : SortedBy Accessor.key as
  gettersFirst : ∀ before a after, as = before ++ a :: after → a.directive = ".get" →
    ∀ b ∈ before, b.directive = ".get"
  only : ∀ bs : List Accessor, bs.Perm as → SortedBy Accessor.key bs → bs = as

namespace Attachments

variable {t : Tables} {a : Attachments}

theorem map_directives (flags : Nat) :
    (directives flags).map (·.2) = Flags.wordsOf flags Flags.accessorDirectives := by
  have hsnd : (Flags.accessorDirectives.mapIdx fun i d => (i, d)).map (·.2) =
    Flags.accessorDirectives := rfl
  rw [directives, Flags.wordsOf, List.map_map]
  conv_rhs => rw [← hsnd, List.filter_map, List.map_map]
  rfl

theorem place_of_mem_directives {flags : Nat} {d : Nat × String} (h : d ∈ directives flags) :
    d.2 ∈ Accessor.directiveOrder ∧ d.1 = Accessor.directiveOrder.idxOf d.2 := by
  obtain ⟨p, hp, rfl⟩ := List.mem_map.mp h
  have hall : ∀ p ∈ Flags.accessorDirectives.mapIdx fun i d => (i, d),
      p.2.2 ∈ Accessor.directiveOrder ∧ p.1 = Accessor.directiveOrder.idxOf p.2.2 := by
    decide
  exact hall p (List.mem_filter.mp hp).1

/-- An accessor beside its place in the listing order, made from what was recorded. -/
def Attached (t : Tables) (r : String × Nat) (e : Nat × Accessor) : Prop :=
  t.Shows r e.2 ∧ e.2.directive ∈ Accessor.directiveOrder ∧ e.1 = e.2.key.1

/-- A row with a method attaches one accessor for each of its directives. -/
theorem forall₂_directives {r : SemanticsRow} {association : Token}
    {found : List (Token × Nat × Accessor)} (hassociation : r.association? = some association)
    (hmethod : r.method ≠ 0) (h : accessorsOfRow t r = .ok found) :
    List.Forall₂ (fun d e => e.1 = association ∧ Attached t (d.2, r.method) e.2)
      (directives r.flags) found := by
  simp only [accessorsOfRow, hassociation, hmethod, if_false] at h
  have hplaces : ∀ d ∈ directives r.flags, d.2 ∈ Accessor.directiveOrder ∧
      d.1 = Accessor.directiveOrder.idxOf d.2 := fun d hd => place_of_mem_directives hd
  have heach := (List.forall₂_and_left _ _).mpr ⟨hplaces, forall₂_of_mapM h⟩
  refine heach.imp fun d e ⟨⟨hmem, hplace⟩, he⟩ => ?_
  obtain ⟨text, htext, he⟩ := exists_of_bind_eq_ok he
  cases he
  exact ⟨rfl, ⟨rfl, htext⟩, hmem, hplace⟩

/-- A row attaches to a token what it records for it. -/
theorem forall₂_recorded {r : SemanticsRow} {found : List (Token × Nat × Accessor)}
    (h : accessorsOfRow t r = .ok found) (token : Token) :
    List.Forall₂ (Attached t) (r.recorded token)
      ((found.filter fun p => p.1 = token).map (·.2)) := by
  cases hassociation : r.association? with
  | none =>
    simp only [accessorsOfRow, hassociation] at h
    cases h
    rw [SemanticsRow.recorded, if_neg (by simp [hassociation])]
    exact .nil
  | some association =>
    by_cases hmethod : r.method = 0
    · simp only [accessorsOfRow, hassociation, hmethod, if_true] at h
      cases h
      rw [SemanticsRow.recorded, if_neg (by simp [hmethod])]
      exact .nil
    have heach := forall₂_directives hassociation hmethod h
    have howner : ∀ e ∈ found, e.1 = association := by
      intro e he
      obtain ⟨d, hd, -⟩ := exists_of_forall₂ heach he
      exact hd
    by_cases htoken : association = token
    · have hall : ∀ e ∈ found, decide (e.1 = token) = true := fun e he =>
        decide_eq_true ((howner e he).trans htoken)
      rw [SemanticsRow.recorded, if_pos ⟨by rw [hassociation, htoken], hmethod⟩,
        List.filter_eq_self.mpr hall, ← map_directives, List.map_map, List.forall₂_map_left_iff,
        List.forall₂_map_right_iff]
      exact heach.imp fun d e he => he.2
    · have hnone : ∀ e ∈ found, ¬ decide (e.1 = token) = true := by
        intro e he
        rw [decide_eq_true_eq, howner e he]
        exact htoken
      rw [SemanticsRow.recorded, if_neg (by simp [hassociation, htoken]),
        List.filter_eq_nil_iff.mpr hnone]
      exact .nil

theorem forall₂_flatten_recorded {records : List SemanticsRow}
    {rows : List (List (Token × Nat × Accessor))}
    (h : List.Forall₂ (fun r found => accessorsOfRow t r = .ok found) records rows)
    (token : Token) :
    List.Forall₂ (Attached t) (records.flatMap (·.recorded token))
      ((rows.flatten.filter fun p => p.1 = token).map (·.2)) := by
  induction h with
  | nil => exact .nil
  | cons hrow _ ih =>
    rw [List.flatMap_cons, List.flatten_cons, List.filter_append, List.map_append]
    exact List.rel_append (forall₂_recorded hrow token) ih

/-- The accessors of a property or event in the order of their rows. -/
def owned (a : Attachments) (token : Token) : List (Nat × Accessor) :=
  (a.accessors.filter fun p => p.1 = token).map (·.2)

theorem forall₂_owned (h : Attachments.of t = .ok a) (token : Token) :
    List.Forall₂ (Attached t) (t.recordedAccessors token) (a.owned token) := by
  obtain ⟨attributes, -, h⟩ := exists_of_bind_eq_ok h
  obtain ⟨rows, hrows, h⟩ := exists_of_bind_eq_ok h
  cases h
  exact forall₂_flatten_recorded (forall₂_of_mapM hrows) token

theorem accessorsOf_perm_owned (a : Attachments) (token : Token) :
    (a.accessorsOf token).Perm ((a.owned token).map Prod.snd) :=
  (List.mergeSort_perm _ _).map Prod.snd

theorem accessorsOf_listed (h : Attachments.of t = .ok a) (token : Token) :
    AccessorsOf t token (a.accessorsOf token) := by
  have howned := forall₂_owned h token
  have hplaced : ∀ e ∈ (a.owned token).mergeSort accessorLe,
      e.2.directive ∈ Accessor.directiveOrder ∧ (e.1, e.2.method) = e.2.key := by
    intro e he
    obtain ⟨r, -, hmem, hplace⟩ :=
      exists_of_forall₂ howned ((List.mergeSort_perm _ _).mem_iff.mp he)
    exact ⟨hmem, Prod.ext hplace rfl⟩
  have hsorted : SortedBy Accessor.key (a.accessorsOf token) := by
    have hentries : SortedBy (fun e => (e.1, e.2.method)) ((a.owned token).mergeSort accessorLe) :=
      sortedBy_mergeSort _ _
    refine List.pairwise_map.mpr ((List.Pairwise.and_mem.mp hentries).imp ?_)
    rintro e e' ⟨he, he', hle⟩
    rw [← (hplaced e he).2, ← (hplaced e' he').2]
    exact hle
  refine ⟨⟨_, ?_, accessorsOf_perm_owned a token⟩, hsorted, ?_, ?_⟩
  · exact List.forall₂_map_right_iff.mpr (howned.imp fun _ _ he => he.1)
  · intro before x after hsplit hget y hy
    rw [Accessor.directive_eq_get_iff] at hget ⊢
    rw [hsplit] at hsorted
    have hle := (List.pairwise_append.mp hsorted).2.2 y hy x List.mem_cons_self
    rw [InOrder, hget] at hle
    omega
  · intro bs hbs hbs'
    refine hbs'.eq_of_perm hsorted hbs fun x hx y _ hkey => ?_
    obtain ⟨e, he, rfl⟩ := List.mem_map.mp (hbs.mem_iff.mp hx)
    exact Accessor.eq_of_key_eq (hplaced e he).1 hkey

end Attachments

/-! ### Generic parameters -/

namespace GenericParamRow

def key (g : GenericParamRow) : Nat × String :=
  (g.number, g.name)

theorem eq_of_key_eq {g g' : GenericParamRow} (howner : g.owner? = g'.owner?)
    (h : g.key = g'.key) : g = g' := by
  obtain ⟨hnumber, hname⟩ := Prod.mk.inj h
  cases g
  cases g'
  simp only [GenericParamRow.mk.injEq]
  exact ⟨hnumber, howner, hname⟩

end GenericParamRow

namespace Tables

def ownedParameters (t : Tables) (owner : Token) : List GenericParamRow :=
  t.genericParams.filter fun g => g.owner? = some owner

/-- The generic parameters of a type or method as they have to be listed. -/
def ParametersOf (t : Tables) (owner : Token) (names : List String) : Prop :=
  ∃ rows : List GenericParamRow, names = rows.map (·.name) ∧
    rows.Perm (t.ownedParameters owner) ∧ SortedBy GenericParamRow.key rows ∧
    ∀ rows' : List GenericParamRow, rows'.Perm rows → SortedBy GenericParamRow.key rows' →
      rows' = rows

theorem genericParameters_listed (t : Tables) (owner : Token) :
    t.ParametersOf owner (t.genericParameters owner) := by
  have hsorted := sortedBy_mergeSort GenericParamRow.key (t.ownedParameters owner)
  refine ⟨_, rfl, List.mergeSort_perm _ _, hsorted, fun rows hrows hrows' => ?_⟩
  refine hrows'.eq_of_perm hsorted hrows fun g hg g' hg' hkey => ?_
  have howner : ∀ g ∈ rows, g.owner? = some owner := by
    intro g hg
    have hg := (List.mergeSort_perm _ _).mem_iff.mp (hrows.mem_iff.mp hg)
    exact of_decide_eq_true (List.mem_filter.mp hg).2
  exact GenericParamRow.eq_of_key_eq ((howner g hg).trans (howner g' hg').symm) hkey

end Tables

end ILDump
