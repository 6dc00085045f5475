import ILDump.Proofs.Listing.Arrangement
import ILDump.Proofs.Text.Joined
import Mathlib.Data.List.Basic
import Mathlib.Tactic.FinCases

/-!
# Overloads by name

Arranging by name is stable, so siblings with one key stay in the order they came in. An
arrangement is therefore the same for every order of the siblings if and only if different
siblings have different keys. For methods the key is the name with the return type and the
parameters: overloads that differ there have one arrangement, while a method and its
generic namesake, or two methods with different calling conventions only, may have two.
-/

namespace ILDump

/-! ### Stability -/
namespace MemberOrder

variable {α : Type} [Listed α]

/-- Siblings with one key keep their order. -/
theorem filter_arrange_byName (xs : List α) (key : SortKey) :
    (byName.arrange xs).filter (fun x => decide (Listed.sortKey x = key)) =
      xs.filter fun x => decide (Listed.sortKey x = key) := by
  let same : α → Bool := fun x => decide (Listed.sortKey x = key)
  have hsorted : (xs.filter same).Pairwise fun x y =>
      (Listed.sortKey x).le (Listed.sortKey y) = true := by
    refine List.pairwise_of_forall_mem_list fun x hx y hy => ?_
    have hx := of_decide_eq_true (List.mem_filter.mp hx).2
    have hy := of_decide_eq_true (List.mem_filter.mp hy).2
    rw [hx, hy]
    simpa using SortKey.le_total key key
  have hsub : (xs.filter same).Sublist (byName.arrange xs) := by
    refine List.sublist_mergeSort ?_ ?_ hsorted List.filter_sublist
    · intro a b c hab hbc
      exact SortKey.le_trans hab hbc
    · intro a b
      exact SortKey.le_total (Listed.sortKey a) (Listed.sortKey b)
  have hsame : (xs.filter same).Sublist ((byName.arrange xs).filter same) := by
    simpa using hsub.filter same
  have hlength : (xs.filter same).length = ((byName.arrange xs).filter same).length :=
    (((arrange_perm byName xs).filter same).length_eq).symm
  exact (hsame.eq_of_length hlength).symm

/-- Siblings that all have one key stay as they are. -/
theorem arrange_byName_of_forall_sortKey_eq {xs : List α} (key : SortKey)
    (hkey : ∀ x ∈ xs, Listed.sortKey x = key) : byName.arrange xs = xs := by
  have hall : ∀ x ∈ xs, decide (Listed.sortKey x = key) = true := fun x hx =>
    decide_eq_true (hkey x hx)
  have harranged : ∀ x ∈ byName.arrange xs, decide (Listed.sortKey x = key) = true :=
    fun x hx => hall x ((arrange_perm byName xs).mem_iff.mp hx)
  have hfilter := filter_arrange_byName xs key
  rwa [List.filter_eq_self.mpr hall, List.filter_eq_self.mpr harranged] at hfilter

/-- Siblings told apart by their keys have one arrangement. -/
theorem arrange_byName_eq_of_perm {xs ys : List α}
    (hkeys : ∀ x ∈ xs, ∀ y ∈ xs, Listed.sortKey x = Listed.sortKey y → x = y)
    (hperm : xs.Perm ys) : byName.arrange ys = byName.arrange xs := by
  have harranged : (byName.arrange ys).Perm (byName.arrange xs) :=
    ((arrange_perm byName ys).trans hperm.symm).trans (arrange_perm byName xs).symm
  refine List.Perm.eq_of_pairwise ?_ (arrange_byName_pairwise ys) (arrange_byName_pairwise xs)
    harranged
  intro x y hx hy hxy hyx
  have hx : x ∈ xs := hperm.mem_iff.mpr ((arrange_perm byName ys).mem_iff.mp hx)
  have hy : y ∈ xs := (arrange_perm byName xs).mem_iff.mp hy
  exact hkeys x hx y hy (SortKey.le_antisymm hxy hyx)

omit [Listed α] in
theorem exists_perm_cons_cons {xs : List α} {x y : α} (hx : x ∈ xs) (hy : y ∈ xs) (hne : x ≠ y) :
    ∃ rest, xs.Perm (x :: y :: rest) := by
  obtain ⟨before, after, rfl⟩ := List.append_of_mem hx
  have hy : y ∈ before ++ after := by
    rcases List.mem_append.mp hy with hy | hy
    · exact List.mem_append_left _ hy
    · rcases List.mem_cons.mp hy with rfl | hy
      · exact absurd rfl hne
      · exact List.mem_append_right _ hy
  obtain ⟨before', after', hsplit⟩ := List.append_of_mem hy
  refine ⟨before' ++ after', List.perm_middle.trans (List.Perm.cons x ?_)⟩
  rw [hsplit]
  exact List.perm_middle

/-- Two different siblings with one key are arranged in the order they came in, so another
    order gives another arrangement. -/
theorem eq_of_arrange_byName_eq {xs : List α}
    (hall : ∀ ys, xs.Perm ys → byName.arrange ys = byName.arrange xs) {x y : α} (hx : x ∈ xs)
    (hy : y ∈ xs) (hkey : Listed.sortKey x = Listed.sortKey y) : x = y := by
  by_contra hne
  obtain ⟨rest, hperm⟩ := exists_perm_cons_cons hx hy hne
  have harranged : byName.arrange (x :: y :: rest) = byName.arrange (y :: x :: rest) :=
    (hall _ hperm).trans (hall _ (hperm.trans (List.Perm.swap y x rest))).symm
  have hfilter := congrArg (List.filter fun z => decide (Listed.sortKey z = Listed.sortKey x))
    harranged
  rw [filter_arrange_byName, filter_arrange_byName] at hfilter
  simp only [List.filter_cons, ← hkey, decide_true, if_true, List.cons.injEq] at hfilter
  exact hne hfilter.1

/-- **The order is forgotten exactly if keys tell siblings apart.** -/
theorem arrange_byName_canonical_iff (xs : List α) :
    (∀ ys, xs.Perm ys → byName.arrange ys = byName.arrange xs) ↔
      ∀ x ∈ xs, ∀ y ∈ xs, Listed.sortKey x = Listed.sortKey y → x = y :=
  ⟨fun hall _ hx _ hy hkey => eq_of_arrange_byName_eq hall hx hy hkey,
    fun hkeys _ hperm => arrange_byName_eq_of_perm hkeys hperm⟩

end MemberOrder

/-! ### Signatures -/

/-- Methods that may stand side by side in one type: two of them differ in their names, in the
    number of their generic parameters, or in what their signatures say. -/
def DifferentOverloads (m n : MethodDefinition) : Prop :=
  m.name ≠ n.name ∨ m.genericParameters.length ≠ n.genericParameters.length ∨
    m.callingConvention ≠ n.callingConvention ∨ m.returnType ≠ n.returnType ∨
    m.parameters ≠ n.parameters

instance (m n : MethodDefinition) : Decidable (DifferentOverloads m n) :=
  inferInstanceAs (Decidable (_ ∨ _))

/-- Methods that differ in what their sort keys are made of. -/
def DifferentSignatures (m n : MethodDefinition) : Prop :=
  m.name ≠ n.name ∨ m.returnType ≠ n.returnType ∨ m.parameters ≠ n.parameters

/-- A signature whose parts can be told apart in its text: the return type has no parenthesis,
    and no parameter is empty or has a comma. -/
structure PlainSignature (m : MethodDefinition) : Prop where
  returnType : '(' ∉ m.returnType.toList
  parameters : ∀ p ∈ m.parameters, p ≠ "" ∧ ',' ∉ p.toList

/-- The text of a plain signature holds the return type and the parameters. -/
theorem PlainSignature.eq_of_signatureText_eq {m n : MethodDefinition} (hm : PlainSignature m)
    (hn : PlainSignature n) (heq : Listed.signatureText m = Listed.signatureText n) :
    m.returnType = n.returnType ∧ m.parameters = n.parameters := by
  have hlist := congrArg String.toList heq
  simp only [Listed.signatureText, String.toList_append, List.append_assoc] at hlist
  have hopen (rest : List Char) : ∀ c ∈ ("(".toList ++ rest).head?, c = '(' := by
    simp
  obtain ⟨hreturn, hrest⟩ :=
    append_inj_of_head? hm.returnType hn.returnType (hopen _) (hopen _) hlist
  have hparameters := List.append_cancel_right (List.append_cancel_left hrest)
  exact ⟨String.toList_inj.mp hreturn,
    intercalate_inj endsAtComma_of_not_mem hm.parameters hn.parameters
      (String.toList_inj.mp hparameters)⟩

/-! ### Overloads -/
namespace MemberOrder

theorem sortKey_method_eq_iff {m n : MethodDefinition} :
    Listed.sortKey m = Listed.sortKey n ↔
      m.name = n.name ∧ Listed.signatureText m = Listed.signatureText n :=
  SortKey.mk.injEq .. ▸ Iff.rfl

/-- **When overloads have one arrangement.** The arrangement of methods does not depend on
    their order exactly if no two different ones share name and signature text. Plain
    signatures share their text only if return type and parameters are the same, so methods
    that differ in these, or in their names, have one arrangement. -/
theorem arrange_overloads (ms : List MethodDefinition) :
    ((∀ ms', ms.Perm ms' → byName.arrange ms' = byName.arrange ms) ↔
      ∀ m ∈ ms, ∀ n ∈ ms, m.name = n.name → Listed.signatureText m = Listed.signatureText n →
        m = n) ∧
    ((∀ m ∈ ms, PlainSignature m) →
      (∀ m ∈ ms, ∀ n ∈ ms, m ≠ n → DifferentSignatures m n) →
      ∀ ms', ms.Perm ms' → byName.arrange ms' = byName.arrange ms) := by
  constructor
  · rw [arrange_byName_canonical_iff]
    simp only [sortKey_method_eq_iff, and_imp]
  · intro hplain hdifferent ms' hperm
    refine arrange_byName_eq_of_perm (fun m hm n hn hkey => ?_) hperm
    by_contra hne
    obtain ⟨hname, htext⟩ := sortKey_method_eq_iff.mp hkey
    obtain ⟨hreturn, hparameters⟩ := (hplain m hm).eq_of_signatureText_eq (hplain n hn) htext
    rcases hdifferent m hm n hn hne with h | h | h
    · exact h hname
    · exact h hreturn
    · exact h hparameters

/-- A method with nothing but a name. -/
def bareMethod (name : String) : MethodDefinition where
  name := name
  returnType := "void"
  parameters := []
  attributes := []
  callingConvention := []
  implAttributes := []
  genericParameters := []
  body? := none
  isEntryPoint := false
  customAttributes := []
  token := Token.ofRow TableNumber.method 1

/-- Three overloads with plain signatures in two orders. -/
theorem arrange_overloads_sample :
    let make := bareMethod "Make"
    let makeOne := { make with parameters := ["int32"] }
    let makeTwo := { make with parameters := ["int32", "string"] }
    byName.arrange [makeTwo, make, makeOne] = byName.arrange [make, makeOne, makeTwo] := by
  intro make makeOne makeTwo
  refine (arrange_overloads [make, makeOne, makeTwo]).2 ?plain ?different _ ?perm
  case plain =>
    intro m hm
    fin_cases hm <;> constructor <;> decide
  case different =>
    intro m hm n hn hne
    fin_cases hm <;> fin_cases hn <;> first
      | exact absurd rfl hne
      | exact .inr (.inr (by decide))
  case perm =>
    show ([make, makeOne] ++ [makeTwo]).Perm ([makeTwo] ++ [make, makeOne])
    exact List.perm_append_comm

/-- A method and its generic namesake are different overloads with one key: they are arranged
    in the order they come in. -/
theorem arrange_generic_namesakes :
    let make := bareMethod "Make"
    let makeOf := { make with genericParameters := ["T"] }
    [makeOf, make].Pairwise DifferentOverloads ∧ [make, makeOf].Perm [makeOf, make] ∧
      byName.arrange [makeOf, make] ≠ byName.arrange [make, makeOf] := by
  intro make makeOf
  have hstays (xs : List MethodDefinition) (hxs : ∀ m ∈ xs, m = make ∨ m = makeOf) :
      byName.arrange xs = xs := by
    refine arrange_byName_of_forall_sortKey_eq (Listed.sortKey make) fun m hm => ?_
    rcases hxs m hm with rfl | rfl <;> rfl
  refine ⟨by decide, List.Perm.swap _ _ _, ?_⟩
  rw [hstays [makeOf, make] (by simp), hstays [make, makeOf] (by simp)]
  decide

end MemberOrder

end ILDump
