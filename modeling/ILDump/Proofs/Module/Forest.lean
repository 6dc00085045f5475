import ILDump.Proofs.Module.Nesting
import ILDump.Proofs.Outcomes

/-!
# The forest of types

The forest that is loaded holds every row of the types once, at the place where its
nesting rows put it. `IsRow` says that a type stands for a row, and so do all types in it,
in ascending order; `entries` lists what is in a forest with the token of the type around
each, so that nothing can be counted twice or left out unseen.
-/

namespace ILDump

/-! ### Entries -/

mutual

/-- What is loaded for a type and the types in it, each with the token of the type around
    it, in the order of a listing. -/
def TypeDefinition.entries (outer? : Option Token) : TypeDefinition → List (Option Token × TypeInfo)
  | .node info nested => (outer?, info) :: TypeDefinition.entriesOfEach (some info.token) nested

def TypeDefinition.entriesOfEach (outer? : Option Token) :
    List TypeDefinition → List (Option Token × TypeInfo)
  | [] => []
  | t :: ts => t.entries outer? ++ TypeDefinition.entriesOfEach outer? ts

end

theorem TypeDefinition.entriesOfEach_eq_flatMap (outer? : Option Token)
    (ts : List TypeDefinition) :
    TypeDefinition.entriesOfEach outer? ts = ts.flatMap (TypeDefinition.entries outer?) := by
  induction ts with
  | nil => rw [TypeDefinition.entriesOfEach, List.flatMap_nil]
  | cons t ts ih => rw [TypeDefinition.entriesOfEach, ih, List.flatMap_cons]

namespace Loader

variable {t : Tables} {infos : List TypeInfo}

def typeToken (n : Nat) : Token :=
  Token.ofRow TableNumber.typeDef n

/-! ### Types and rows -/

/-- The rows that stand directly inside a type or at the top: all of them, ascending. -/
structure Siblings (t : Tables) (outer? : Option Nat) (rows : List Nat) : Prop where
  ascending : rows.Pairwise (· < ·)
  mem_iff : ∀ n, n ∈ rows ↔ IsTypeRow t n ∧ parent? t n = outer?

/-- A type stands for a row, and the types in it for the rows inside that row. -/
inductive IsRow (t : Tables) (infos : List TypeInfo) : Nat → TypeDefinition → Prop where
  | node {n : Nat} {info : TypeInfo} {rows : List Nat} {nested : List TypeDefinition} :
    Tables.row? infos n = some info → Siblings t (some n) rows →
    List.Forall₂ (IsRow t infos) rows nested → IsRow t infos n (.node info nested)

theorem siblings_childrenOf (outer? : Option Nat) : Siblings t outer? (childrenOf t outer?) :=
  ⟨childrenOf_pairwise outer?, fun _ => mem_childrenOf⟩

theorem exists_row?_of_isTypeRow (hinfos : infos.length = t.typeDefs.length) {n : Nat}
    (hn : IsTypeRow t n) : ∃ info, Tables.row? infos n = some info := by
  obtain ⟨hpos, hle⟩ := hn
  have hlt : n - 1 < infos.length := by omega
  have hzero : n ≠ 0 := by omega
  exact ⟨infos[n - 1], by simp [Tables.row?, hzero, hlt]⟩

/-- **Each type stands for its row.** By induction on the depth that is left: a type of some
    level is reached with as much depth left as there are rows above that level, and no
    level is as high as the number of rows. -/
theorem forest_isRow (hacyclic : NoCycles t) (hinfos : infos.length = t.typeDefs.length) :
    ∀ (depth : Nat) (outer? : Option Nat),
      (∀ n ∈ childrenOf t outer?, ∃ k, Level t n k ∧ k + depth = t.typeDefs.length) →
      List.Forall₂ (IsRow t infos) (childrenOf t outer?) (forest t infos depth outer?)
  | 0, outer?, hlevel => by
    have hnone : childrenOf t outer? = [] := by
      refine List.eq_nil_iff_forall_not_mem.mpr fun n hn => ?_
      obtain ⟨k, hk, hdepth⟩ := hlevel n hn
      obtain ⟨k', hlt, hk'⟩ := exists_level hacyclic (mem_childrenOf.mp hn).1
      have heq := hk.unique hk'
      omega
    rw [hnone, forest]
    exact .nil
  | depth + 1, outer?, hlevel => by
    rw [forest]
    refine forall₂_filterMap fun n hn => ?_
    obtain ⟨info, hinfo⟩ := exists_row?_of_isTypeRow hinfos (mem_childrenOf.mp hn).1
    refine ⟨.node info (forest t infos depth (some n)), by rw [hinfo]; rfl, ?_⟩
    refine .node hinfo (siblings_childrenOf (some n)) ?_
    refine forest_isRow hacyclic hinfos depth (some n) fun m hm => ?_
    obtain ⟨k, hk, hdepth⟩ := hlevel n hn
    exact ⟨k + 1, .inside (mem_childrenOf.mp hm).2 hk, by omega⟩

theorem forest_isRow_top (hacyclic : NoCycles t) (hinfos : infos.length = t.typeDefs.length) :
    List.Forall₂ (IsRow t infos) (childrenOf t none)
      (forest t infos t.typeDefs.length none) := by
  refine forest_isRow hacyclic hinfos _ none fun n hn => ?_
  exact ⟨0, .top (mem_childrenOf.mp hn).2, Nat.zero_add _⟩

/-! ### Nothing lost and nothing twice -/

def entryAt (t : Tables) (infos : List TypeInfo) (n : Nat) : Option (Option Token × TypeInfo) :=
  (Tables.row? infos n).map fun info => ((parent? t n).map typeToken, info)

theorem flatMap_eq_of_forall₂ {α β γ : Type} {f : α → List γ} {g : β → List γ} {xs : List α}
    {ys : List β} (h : List.Forall₂ (fun x y => g y = f x) xs ys) :
    ys.flatMap g = xs.flatMap f := by
  induction h with
  | nil => rfl
  | cons hxy _ ih => rw [List.flatMap_cons, List.flatMap_cons, hxy, ih]

/-- The entries of a forest are those of the rows a walk comes to, in the same order. -/
theorem entries_forest (hinfos : infos.length = t.typeDefs.length)
    (htokens : ∀ n info, Tables.row? infos n = some info → info.token = typeToken n) :
    ∀ (depth : Nat) (outer? : Option Nat),
      TypeDefinition.entriesOfEach (outer?.map typeToken) (forest t infos depth outer?) =
        (rowsIn t depth outer?).filterMap (entryAt t infos)
  | 0, _ => rfl
  | depth + 1, outer? => by
    rw [TypeDefinition.entriesOfEach_eq_flatMap, forest, rowsIn, List.filterMap_flatMap]
    refine flatMap_eq_of_forall₂ (forall₂_filterMap fun n hn => ?_)
    obtain ⟨hrow, hparent⟩ := mem_childrenOf.mp hn
    obtain ⟨info, hinfo⟩ := exists_row?_of_isTypeRow hinfos hrow
    refine ⟨.node info (forest t infos depth (some n)), by rw [hinfo]; rfl, ?_⟩
    have hentry : entryAt t infos n = some (outer?.map typeToken, info) := by
      rw [entryAt, hinfo, hparent]
      rfl
    rw [TypeDefinition.entries, List.filterMap_cons, hentry, htokens n info hinfo]
    exact congrArg _ (entries_forest hinfos htokens depth (some n))

/-- The entries of all rows, in the order of the table. -/
def rowEntries (t : Tables) (infos : List TypeInfo) : List (Option Token × TypeInfo) :=
  (infos.zipIdx 1).map fun p => ((parent? t p.2).map typeToken, p.1)

theorem filterMap_entryAt (hinfos : infos.length = t.typeDefs.length) :
    (List.range' 1 t.typeDefs.length).filterMap (entryAt t infos) = rowEntries t infos := by
  have hrange : List.range' 1 t.typeDefs.length = (infos.zipIdx 1).map (·.2) := by
    rw [List.zipIdx_map_snd, hinfos]
  rw [hrange, List.filterMap_map, rowEntries, ← List.filterMap_eq_map]
  refine List.filterMap_congr fun p hp => ?_
  obtain ⟨hge, hrow⟩ := List.mk_mem_zipIdx_iff_le_and_getElem?_sub.mp hp
  have hzero : p.2 ≠ 0 := by omega
  simp only [Function.comp_apply, entryAt, Tables.row?, hzero, if_false, hrow, Option.map_some]

/-- **Nothing is lost and nothing comes twice.** -/
theorem entries_perm (hacyclic : NoCycles t) (hinfos : infos.length = t.typeDefs.length)
    (htokens : ∀ n info, Tables.row? infos n = some info → info.token = typeToken n) :
    (TypeDefinition.entriesOfEach none (forest t infos t.typeDefs.length none)).Perm
      (rowEntries t infos) := by
  have hentries := entries_forest hinfos htokens t.typeDefs.length none
  rw [Option.map_none] at hentries
  rw [hentries, ← filterMap_entryAt hinfos]
  exact (rowsIn_perm hacyclic).filterMap _

end Loader

end ILDump
