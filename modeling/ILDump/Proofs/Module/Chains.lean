import ILDump.Proofs.Module.Nesting
import ILDump.Proofs.Outcomes

/-!
# Names of types inside types

A type inside others is named after all of them: the name of the outermost one comes first,
in its namespace, and then a name for each type on the way down. A chain meets no row twice, so
the depth to which names are made is enough for every chain there is, and a name that is not
made to this depth has no end. If no type stands inside itself, each type has its chain.
-/

namespace ILDump

open Loader (NoCycles Level IsTypeRow parent?)

variable {t : Tables}

namespace Tables

/-- The types around a type, up to the outermost one: that one's row, and the names from there
    down to the type itself. -/
inductive Chain (t : Tables) : Nat → Nat → List String → Prop where
  | top {n : Nat} : (∀ r, row? t.typeDefs n = some r → t.outer? n = none) → Chain t n n []
  | inside {n outer top : Nat} {names : List String} {r : TypeDefRow} :
    row? t.typeDefs n = some r → t.outer? n = some outer → Chain t outer top names →
    Chain t n top (names ++ [r.name])

/-- The name of a type around which there is no other. -/
def outermostName (t : Tables) (n : Nat) : String :=
  match row? t.typeDefs n with
  | some r => TypeInfo.qualify r.namespaceName r.name
  | none => placeholder "TypeDef" n

def chainText (t : Tables) (top : Nat) (names : List String) : String :=
  t.outermostName top ++ String.join (names.map ("/" ++ ·))

theorem chainText_concat (top : Nat) (names : List String) (name : String) :
    t.chainText top (names ++ [name]) = t.chainText top names ++ "/" ++ name := by
  rw [chainText, List.map_append, String.join_append]
  simp [chainText, String.append_assoc]

theorem Chain.unique {n top : Nat} {names : List String} (h : Chain t n top names) :
    ∀ {top' names'}, Chain t n top' names' → top = top' ∧ names = names' := by
  induction h with
  | top hnone =>
    intro top' names' h'
    cases h' with
    | top _ => exact ⟨rfl, rfl⟩
    | inside hrow houter _ =>
      rw [hnone _ hrow] at houter
      cases houter
  | inside hrow houter _ ih =>
    intro top' names' h'
    cases h' with
    | top hnone =>
      rw [hnone _ hrow] at houter
      cases houter
    | inside hrow' houter' h' =>
      obtain rfl := Option.some.inj (hrow.symm.trans hrow')
      obtain rfl := Option.some.inj (houter.symm.trans houter')
      obtain ⟨rfl, rfl⟩ := ih h'
      exact ⟨rfl, rfl⟩

theorem typeDefNameWithin_of_chain {n top : Nat} {names : List String}
    (h : Chain t n top names) : ∀ {depth}, names.length ≤ depth →
      t.typeDefNameWithin depth n = .ok (t.chainText top names) := by
  induction h with
  | @top n hnone =>
    intro depth _
    unfold typeDefNameWithin
    cases hrow : row? t.typeDefs n with
    | none => simp [chainText, outermostName, hrow]
    | some r =>
      rw [hnone r hrow]
      simp [chainText, outermostName, hrow]
  | @inside n outer top names r hrow houter _ ih =>
    intro depth hdepth
    rw [List.length_append, List.length_singleton] at hdepth
    obtain ⟨depth, rfl⟩ : ∃ d, depth = d + 1 := ⟨depth - 1, by omega⟩
    unfold typeDefNameWithin
    rw [hrow, houter, chainText_concat]
    simp only
    rw [ih (by omega)]
    rfl

/-- By induction on the depth: a name that ends was made along a chain of no more types. -/
theorem exists_chain_of_typeDefNameWithin : ∀ {depth n : Nat} {name : String},
    t.typeDefNameWithin depth n = .ok name →
      ∃ top names, Chain t n top names ∧ names.length ≤ depth
  | depth, n, name, h => by
    unfold typeDefNameWithin at h
    cases hrow : row? t.typeDefs n with
    | none => exact ⟨n, [], .top (by simp [hrow]), Nat.zero_le _⟩
    | some r =>
      cases houter : t.outer? n with
      | none => exact ⟨n, [], .top fun _ _ => houter, Nat.zero_le _⟩
      | some outer =>
        rw [hrow, houter] at h
        cases depth with
        | zero => cases h
        | succ depth =>
          obtain ⟨around, haround, -⟩ := exists_of_bind_eq_ok h
          obtain ⟨top, names, hchain, hlength⟩ := exists_chain_of_typeDefNameWithin haround
          exact ⟨top, names ++ [r.name], .inside hrow houter hchain, by simpa using hlength⟩

/-- Naming a defined type fails in one way only. -/
theorem eq_endless_of_typeDefNameWithin : ∀ {depth n : Nat} {e : SignatureFault},
    t.typeDefNameWithin depth n = .error e → e = .endless
  | depth, n, e, h => by
    unfold typeDefNameWithin at h
    cases hrow : row? t.typeDefs n with
    | none =>
      rw [hrow] at h
      cases h
    | some r =>
      cases houter : t.outer? n with
      | none =>
        rw [hrow, houter] at h
        cases h
      | some outer =>
        rw [hrow, houter] at h
        cases depth with
        | zero =>
          cases h
          rfl
        | succ depth =>
          simp only at h
          cases haround : t.typeDefNameWithin depth outer with
          | ok around =>
            rw [haround] at h
            cases h
          | error e' =>
            rw [haround] at h
            cases h
            exact eq_endless_of_typeDefNameWithin haround

theorem row?_eq_none_of_length_lt {α : Type} {rows : List α} {n : Nat} (h : rows.length < n) :
    row? rows n = none := by
  rw [row?, if_neg (by omega)]
  exact List.getElem?_eq_none (by omega)

theorem bounds_of_row? {α : Type} {rows : List α} {n : Nat} {r : α} (h : row? rows n = some r) :
    1 ≤ n ∧ n ≤ rows.length := by
  constructor
  · rcases Nat.eq_zero_or_pos n with rfl | hpos
    · cases h
    · exact hpos
  · by_contra hlt
    rw [row?_eq_none_of_length_lt (by omega)] at h
    cases h

theorem isTypeRow_of_row? {n : Nat} {r : TypeDefRow} (h : row? t.typeDefs n = some r) :
    IsTypeRow t n :=
  bounds_of_row? h

/-- The types of a chain are rows, each with a chain of another length, so no row is among them
    twice. -/
theorem Chain.exists_rows {n top : Nat} {names : List String} (h : Chain t n top names) :
    ∃ rows : List Nat, rows.length = names.length ∧ rows.Nodup ∧ ∀ m ∈ rows,
      IsTypeRow t m ∧ ∃ names', Chain t m top names' ∧ names'.length ≤ names.length := by
  induction h with
  | top _ => exact ⟨[], rfl, List.nodup_nil, by simp⟩
  | @inside n outer top names r hrow houter hchain ih =>
    obtain ⟨rows, hlength, hnodup, hrows⟩ := ih
    have hn : Chain t n top (names ++ [r.name]) := .inside hrow houter hchain
    have hnew : n ∉ rows := by
      intro hmem
      obtain ⟨-, names', hchain', hle⟩ := hrows n hmem
      obtain ⟨-, rfl⟩ := hn.unique hchain'
      rw [List.length_append, List.length_singleton] at hle
      omega
    refine ⟨n :: rows, by simp [hlength], List.nodup_cons.mpr ⟨hnew, hnodup⟩, ?_⟩
    intro m hm
    rcases List.mem_cons.mp hm with rfl | hm
    · exact ⟨isTypeRow_of_row? hrow, _, hn, Nat.le_refl _⟩
    · obtain ⟨hrow, names', hchain', hle⟩ := hrows m hm
      exact ⟨hrow, names', hchain', by simp; omega⟩

theorem Chain.length_le {n top : Nat} {names : List String} (h : Chain t n top names) :
    names.length ≤ t.typeDefs.length := by
  obtain ⟨rows, hlength, hnodup, hrows⟩ := h.exists_rows
  rw [← hlength]
  exact Loader.length_le_of_nodup hnodup fun m hm => (hrows m hm).1

theorem typeDefName_of_chain {n top : Nat} {names : List String} (h : Chain t n top names) :
    t.typeDefName n = .ok (t.chainText top names) :=
  typeDefNameWithin_of_chain h h.length_le

theorem typeDefName_eq_ok_iff {n : Nat} {name : String} :
    t.typeDefName n = .ok name ↔
      ∃ top names, Chain t n top names ∧ name = t.chainText top names := by
  constructor
  · intro h
    obtain ⟨top, names, hchain, -⟩ := exists_chain_of_typeDefNameWithin h
    refine ⟨top, names, hchain, ?_⟩
    rw [typeDefName_of_chain hchain] at h
    cases h
    rfl
  · rintro ⟨top, names, hchain, rfl⟩
    exact typeDefName_of_chain hchain

/-- **Naming a defined type never ends exactly if no type around it is the outermost one.** -/
theorem typeDefName_eq_endless_iff {n : Nat} :
    t.typeDefName n = .error .endless ↔ ∀ top names, ¬ Chain t n top names := by
  constructor
  · intro h top names hchain
    rw [typeDefName_of_chain hchain] at h
    cases h
  · intro h
    cases hname : t.typeDefName n with
    | ok name =>
      obtain ⟨top, names, hchain, -⟩ := typeDefName_eq_ok_iff.mp hname
      exact absurd hchain (h top names)
    | error e => rw [eq_endless_of_typeDefNameWithin hname]

theorem typeDefName_top {n : Nat} (h : ∀ r, row? t.typeDefs n = some r → t.outer? n = none) :
    t.typeDefName n = .ok (t.outermostName n) := by
  rw [typeDefName_of_chain (.top h), chainText]
  simp

/-- The name of a type inside another one follows from the name of that one, also if that never
    ends. -/
theorem typeDefName_inside {n outer : Nat} {r : TypeDefRow} (hrow : row? t.typeDefs n = some r)
    (houter : t.outer? n = some outer) :
    t.typeDefName n = (t.typeDefName outer).map fun around => around ++ "/" ++ r.name := by
  cases hname : t.typeDefName outer with
  | ok around =>
    obtain ⟨top, names, hchain, rfl⟩ := typeDefName_eq_ok_iff.mp hname
    rw [typeDefName_of_chain (.inside hrow houter hchain), chainText_concat]
    rfl
  | error e =>
    obtain rfl := eq_endless_of_typeDefNameWithin hname
    refine typeDefName_eq_endless_iff.mpr fun top names hchain => ?_
    cases hchain with
    | top hnone =>
      rw [hnone r hrow] at houter
      cases houter
    | @inside _ outer' _ names _ _ houter' hchain =>
      obtain rfl := Option.some.inj (houter.symm.trans houter')
      exact typeDefName_eq_endless_iff.mp hname top names hchain

/-! ### Types that do not stand inside themselves -/

/-- By induction on the level. A type may stand in one that is not there, and then the chain
    ends with the row of that one. -/
theorem exists_chain_of_level {n k : Nat} (h : Level t n k) :
    ∃ top names, Chain t n top names := by
  induction h with
  | @top n hnone =>
    cases hrow : row? t.typeDefs n with
    | none => exact ⟨n, [], .top (by simp [hrow])⟩
    | some r =>
      cases houter : t.outer? n with
      | none => exact ⟨n, [], .top fun _ _ => houter⟩
      | some outer =>
        have hgone : t.typeDefs.length < outer := by
          rw [parent?, houter] at hnone
          simpa using hnone
        have htop : Chain t outer outer [] :=
          .top fun _ h => by simp [row?_eq_none_of_length_lt hgone] at h
        exact ⟨outer, [r.name], .inside hrow houter htop⟩
  | @inside n outer k hparent _ ih =>
    obtain ⟨top, names, hchain⟩ := ih
    have houter : t.outer? n = some outer := (Option.filter_eq_some_iff.mp hparent).1
    cases hrow : row? t.typeDefs n with
    | none => exact ⟨n, [], .top (by simp [hrow])⟩
    | some r => exact ⟨top, names ++ [r.name], .inside hrow houter hchain⟩

theorem exists_chain (hacyclic : NoCycles t) (n : Nat) : ∃ top names, Chain t n top names := by
  cases hrow : row? t.typeDefs n with
  | none => exact ⟨n, [], .top (by simp [hrow])⟩
  | some r =>
    obtain ⟨k, -, hlevel⟩ := Loader.exists_level hacyclic (isTypeRow_of_row? hrow)
    exact exists_chain_of_level hlevel

end Tables

end ILDump
