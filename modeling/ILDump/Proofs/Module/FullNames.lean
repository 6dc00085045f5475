import ILDump.Proofs.Module.Chains
import ILDump.Proofs.Module.Forest
import ILDump.Proofs.Module.TokenOrder
import ILDump.Listing.Writer

/-!
# Full names

The name of a type is made twice. References make it from the rows, with the names of all types
around the type in front. A listing makes it from the type that was loaded, where only the name
of the type around it is kept, and writes it at the end of the type and sorts by it. The two
agree for every type at whatever depth, with one exception.

A row that is nested in itself has no type around it: it stands at the top, and references name
it so. But when it is loaded, the type around it is named without looking whether it is another
one. Its name then stands twice in its full name, and the types inside it, whose names are made
from the rows, seem to be in another type.
-/

namespace ILDump

/-- A type of a forest, at whatever depth. -/
inductive TypeDefinition.Occurs (ts : List TypeDefinition) : TypeDefinition → Prop where
  | top {d : TypeDefinition} : d ∈ ts → Occurs ts d
  | inside {d inner : TypeDefinition} : Occurs ts d → inner ∈ d.nested → Occurs ts inner

open TypeDefinition (Occurs)

/-! ### Types of the forest and rows -/

namespace Loader

section Forest

variable {t : Tables} {infos : List TypeInfo}

/-- What stands in a forest was loaded for a row, and what is in it for the rows inside. -/
theorem exists_row_of_mem_forest : ∀ {depth : Nat} {outer? : Option Nat} {d : TypeDefinition},
    d ∈ forest t infos depth outer? → ∃ n below, parent? t n = outer? ∧
      Tables.row? infos n = some d.info ∧ d.nested = forest t infos below (some n)
  | depth + 1, outer?, d, h => by
    rw [forest] at h
    obtain ⟨n, hn, hd⟩ := List.mem_filterMap.mp h
    obtain ⟨info, hinfo, rfl⟩ := Option.map_eq_some_iff.mp hd
    exact ⟨n, depth, (mem_childrenOf.mp hn).2, hinfo, rfl⟩

theorem exists_row_of_occurs {depth : Nat} {outer? : Option Nat} {d : TypeDefinition}
    (h : Occurs (forest t infos depth outer?) d) : ∃ n below,
      Tables.row? infos n = some d.info ∧ d.nested = forest t infos below (some n) := by
  induction h with
  | top hd =>
    obtain ⟨n, below, -, hinfo, hnested⟩ := exists_row_of_mem_forest hd
    exact ⟨n, below, hinfo, hnested⟩
  | inside _ hinner ih =>
    obtain ⟨outer, above, -, hnested⟩ := ih
    rw [hnested] at hinner
    obtain ⟨n, below, -, hinfo, hnested'⟩ := exists_row_of_mem_forest hinner
    exact ⟨n, below, hinfo, hnested'⟩

end Forest

/-- Each type of a module, at whatever depth, is what was loaded for a row. -/
theorem LoadedRows.exists_row_of_occurs {l : Loader} {parts : TypeParts} {infos : List TypeInfo}
    (h : LoadedRows l parts infos) {depth : Nat} {outer? : Option Nat} {d : TypeDefinition}
    (hd : Occurs (forest l.tables infos depth outer?) d) :
    ∃ n r, Tables.row? l.tables.typeDefs n = some r ∧ l.typeInfo parts n r = .ok d.info := by
  obtain ⟨n, below, hinfo, -⟩ := Loader.exists_row_of_occurs hd
  obtain ⟨r, hrow, hinfo⟩ := h.exists_row hinfo
  exact ⟨n, r, hrow, hinfo⟩

end Loader

/-! ### Names from rows -/

namespace Tables

variable {t : Tables}

theorem outer?_eq_some_iff {n outer : Nat} :
    t.outer? n = some outer ↔ t.enclosing n = outer ∧ outer ≠ 0 ∧ outer ≠ n := by
  rw [outer?]
  constructor
  · intro h
    split at h
    · cases h
    · obtain rfl := Option.some.inj h
      exact ⟨rfl, by tauto⟩
  · rintro ⟨rfl, hzero, hself⟩
    simp [hzero, hself]

theorem outer?_eq_none_iff {n : Nat} :
    t.outer? n = none ↔ t.enclosing n = 0 ∨ t.enclosing n = n := by
  rw [outer?]
  split <;> simp_all

/-- One step up: the name of a type from the name of the one around it. -/
theorem typeDefName_of_outer? {n outer : Nat} {r : TypeDefRow} {around : String}
    (hrow : row? t.typeDefs n = some r) (houter : t.outer? n = some outer)
    (haround : t.typeDefName outer = .ok around) :
    t.typeDefName n = .ok (around ++ "/" ++ r.name) := by
  rw [typeDefName_inside hrow houter, haround]
  rfl

theorem typeDefName_of_outer?_none {n : Nat} {r : TypeDefRow}
    (hrow : row? t.typeDefs n = some r) (houter : t.outer? n = none) :
    t.typeDefName n = .ok (TypeInfo.qualify r.namespaceName r.name) := by
  rw [typeDefName_top fun _ _ => houter, outermostName, hrow]

theorem qualify_ne_empty {space name : String} (h : name ≠ "") :
    TypeInfo.qualify space name ≠ "" := by
  rw [TypeInfo.qualify]
  split
  · exact h
  · simp [h]

/-- A row that is not there has a name as well, its placeholder. -/
theorem name_ne_empty (hnames : ∀ r ∈ t.typeDefs, r.name ≠ "") {n : Nat} {name : String}
    (h : t.typeDefName n = .ok name) : name ≠ "" := by
  obtain ⟨top, names, hchain, rfl⟩ := typeDefName_eq_ok_iff.mp h
  cases hchain with
  | inside =>
    rw [chainText_concat]
    simp [String.append_eq_empty_iff]
  | top _ =>
    simp only [chainText, List.map_nil, String.join_nil, String.append_empty, outermostName]
    cases hrow : row? t.typeDefs n with
    | none => simp [placeholder]
    | some r => exact qualify_ne_empty (hnames r (mem_of_row? hrow))

theorem typeName_of_typeDef {token : Token} (h : token.table = TableNumber.typeDef) :
    t.typeName token = t.typeDefName token.row := by
  rw [typeName, typeNameWithin.eq_def]
  simp only [h, if_true]

end Tables

/-! ### Names of what was loaded -/

namespace Loader

variable {l : Loader} {parts : TypeParts}

theorem names_of_typeInfo {n : Nat} {r : TypeDefRow} {info : TypeInfo}
    (h : l.typeInfo parts n r = .ok info) :
    info.name = r.name ∧ info.namespaceName = r.namespaceName ∧
      l.tables.around? n = .ok info.enclosing? := by
  obtain ⟨extends?, enclosing?, fields, methods, -, henclosing, -, -, rfl⟩ :=
    exists_of_typeInfo h
  exact ⟨rfl, rfl, eq_ok_of_named henclosing⟩

theorem enclosing?_of_typeInfo {n : Nat} {r : TypeDefRow} {info : TypeInfo}
    (h : l.typeInfo parts n r = .ok info) (hzero : l.tables.enclosing n ≠ 0) :
    ∃ around, l.tables.typeDefName (l.tables.enclosing n) = .ok around ∧
      info.enclosing? = some around := by
  obtain ⟨-, -, haround⟩ := names_of_typeInfo h
  rw [Tables.around?, if_neg hzero] at haround
  cases hname : l.tables.typeDefName (l.tables.enclosing n) with
  | error e =>
    rw [hname] at haround
    cases haround
  | ok around =>
    rw [hname] at haround
    exact ⟨around, rfl, (Except.ok.inj haround).symm⟩

/-- A type that was loaded has a name, since the one around it was named. -/
theorem exists_name_of_typeInfo {n : Nat} {r : TypeDefRow} {info : TypeInfo}
    (hrow : Tables.row? l.tables.typeDefs n = some r) (h : l.typeInfo parts n r = .ok info) :
    ∃ name, l.tables.typeDefName n = .ok name := by
  cases houter : l.tables.outer? n with
  | none => exact ⟨_, Tables.typeDefName_of_outer?_none hrow houter⟩
  | some outer =>
    obtain ⟨rfl, hzero, -⟩ := Tables.outer?_eq_some_iff.mp houter
    obtain ⟨around, haround, -⟩ := enclosing?_of_typeInfo h hzero
    exact ⟨_, Tables.typeDefName_of_outer? hrow houter haround⟩

/-- The full name looks at the nesting row only to see whether there is one. -/
theorem fullName_of_top {n : Nat} {r : TypeDefRow} {info : TypeInfo}
    (h : l.typeInfo parts n r = .ok info) (hzero : l.tables.enclosing n = 0) :
    info.fullName = TypeInfo.qualify r.namespaceName r.name := by
  obtain ⟨hname, hspace, haround⟩ := names_of_typeInfo h
  rw [Tables.around?, if_pos hzero] at haround
  rw [TypeInfo.fullName, ← Except.ok.inj haround, hname, hspace]

theorem fullName_of_enclosing (hnames : ∀ r ∈ l.tables.typeDefs, r.name ≠ "") {n : Nat}
    {r : TypeDefRow} {info : TypeInfo} {around : String} (h : l.typeInfo parts n r = .ok info)
    (hzero : l.tables.enclosing n ≠ 0)
    (haround : l.tables.typeDefName (l.tables.enclosing n) = .ok around) :
    info.fullName = around ++ "/" ++ info.name := by
  obtain ⟨around', haround', henclosing⟩ := enclosing?_of_typeInfo h hzero
  obtain rfl := Except.ok.inj (haround.symm.trans haround')
  rw [TypeInfo.fullName, henclosing]
  simp only
  rw [if_neg (Tables.name_ne_empty hnames haround)]

theorem append_slash_ne (s name : String) : s ++ "/" ++ name ≠ s := by
  intro h
  have hlength := congrArg String.length h
  simp only [String.length_append] at hlength
  have hslash : "/".length = 1 := rfl
  omega

/-- The places where the name of a type stands in a listing. The header of a type inside
    another one has only the last part of it. -/
structure ListedUnder (d : TypeDefinition) (name : String) : Prop where
  sortKey : Listed.sortKey d = ⟨name, ""⟩
  header : d.info.isNested = false → Listing.typeHead d.info = Listing.words
    ([".class"] ++ d.info.attributes ++
      [Listing.withGenerics (Identifier.escapeDotted name) d.info.genericParameters])
  lastLine : ∀ order, (Listing.type order d).getLast? =
    some (.line (Listing.closeBlock ++ " // end of class " ++ name))

theorem listedUnder_fullName (d : TypeDefinition) : ListedUnder d d.info.fullName where
  sortKey := rfl
  header := by
    intro hnested
    simp [Listing.typeHead, hnested]
  lastLine := by
    intro order
    obtain ⟨info, nested⟩ := d
    rw [Listing.type, Listing.typeAround, List.getLast?_concat]
    rfl

/-- How the name of a type that was loaded for a row relates to the name that references make
    for the row. -/
structure NamedBesideRow (l : Loader) (n : Nat) (name : String) (d : TypeDefinition) : Prop where
  loaded : ∃ parts r, l.typeParts = .ok parts ∧ Tables.row? l.tables.typeDefs n = some r ∧
    l.typeInfo parts n r = .ok d.info
  token : d.info.token = typeToken n
  named : l.tables.typeDefName n = .ok name
  references : ∀ token : Token, token.table = TableNumber.typeDef → token.row = n →
    l.tables.typeName token = .ok name
  listed : ListedUnder d d.info.fullName
  /-- Both names are the same exactly for rows that are not nested in themselves. -/
  agrees : d.info.fullName = name ↔ l.tables.enclosing n ≠ n
  doubled : l.tables.enclosing n = n → d.info.fullName = name ++ "/" ++ d.info.name
  /-- A type inside is named after the row, also if the row is nested in itself. -/
  inner : ∀ inner ∈ d.nested, inner.info.fullName = name ++ "/" ++ inner.info.name
  /-- So it is named after the type around it exactly if that one's names agree. -/
  innerAgrees : ∀ inner ∈ d.nested,
    (inner.info.fullName = d.info.fullName ++ "/" ++ inner.info.name ↔ l.tables.enclosing n ≠ n)

section Names

variable {n : Nat} {r : TypeDefRow} {info : TypeInfo} {name : String}
  (hnames : ∀ r ∈ l.tables.typeDefs, r.name ≠ "")
include hnames

theorem fullName_eq_name (hrow : Tables.row? l.tables.typeDefs n = some r)
    (h : l.typeInfo parts n r = .ok info) (hname : l.tables.typeDefName n = .ok name)
    (hself : l.tables.enclosing n ≠ n) : info.fullName = name := by
  by_cases hzero : l.tables.enclosing n = 0
  · have houter : l.tables.outer? n = none := Tables.outer?_eq_none_iff.mpr (.inl hzero)
    rw [Tables.typeDefName_of_outer?_none hrow houter] at hname
    rw [fullName_of_top h hzero, Except.ok.inj hname]
  · have houter : l.tables.outer? n = some (l.tables.enclosing n) :=
      Tables.outer?_eq_some_iff.mpr ⟨rfl, hzero, hself⟩
    obtain ⟨around, haround, -⟩ := enclosing?_of_typeInfo h hzero
    rw [Tables.typeDefName_of_outer? hrow houter haround] at hname
    rw [fullName_of_enclosing hnames h hzero haround, (names_of_typeInfo h).1,
      Except.ok.inj hname]

theorem fullName_of_nestedInItself (hrow : Tables.row? l.tables.typeDefs n = some r)
    (h : l.typeInfo parts n r = .ok info) (hname : l.tables.typeDefName n = .ok name)
    (hself : l.tables.enclosing n = n) : info.fullName = name ++ "/" ++ info.name := by
  have hzero : n ≠ 0 := Nat.ne_of_gt (Tables.isTypeRow_of_row? hrow).1
  refine fullName_of_enclosing hnames h ?_ ?_
  · rwa [hself]
  · rwa [hself]

theorem fullName_eq_iff (hrow : Tables.row? l.tables.typeDefs n = some r)
    (h : l.typeInfo parts n r = .ok info) (hname : l.tables.typeDefName n = .ok name) :
    info.fullName = name ↔ l.tables.enclosing n ≠ n := by
  constructor
  · intro heq hself
    rw [fullName_of_nestedInItself hnames hrow h hname hself] at heq
    exact append_slash_ne _ _ heq
  · exact fullName_eq_name hnames hrow h hname

/-- Only rows nested in another one are put into its type, so the names of the types inside
    agree. -/
theorem fullName_of_parent? {outer : Nat} (h : l.typeInfo parts n r = .ok info)
    (hparent : parent? l.tables n = some outer) (hname : l.tables.typeDefName outer = .ok name) :
    info.fullName = name ++ "/" ++ info.name := by
  have houter : l.tables.outer? n = some outer := (Option.filter_eq_some_iff.mp hparent).1
  obtain ⟨rfl, hzero, -⟩ := Tables.outer?_eq_some_iff.mp houter
  exact fullName_of_enclosing hnames h hzero hname

/-- **A type has one name, unless it is nested in itself.** -/
theorem fullNames_of_types {ts : List TypeDefinition} (hload : l.types = .ok ts)
    {d : TypeDefinition} (hd : Occurs ts d) : ∃ n name, NamedBesideRow l n name d := by
  obtain ⟨parts, infos, hparts, hloaded, rfl⟩ := exists_of_types hload
  obtain ⟨n, below, hinfo, hnested⟩ := exists_row_of_occurs hd
  obtain ⟨r, hrow, hinfo⟩ := hloaded.exists_row hinfo
  obtain ⟨name, hname⟩ := exists_name_of_typeInfo hrow hinfo
  have hagrees := fullName_eq_iff hnames hrow hinfo hname
  have hinner : ∀ inner ∈ d.nested,
      inner.info.fullName = name ++ "/" ++ inner.info.name := by
    intro inner hmem
    rw [hnested] at hmem
    obtain ⟨m, -, hparent, hinfo', -⟩ := exists_row_of_mem_forest hmem
    obtain ⟨r', -, hinfo'⟩ := hloaded.exists_row hinfo'
    exact fullName_of_parent? hnames hinfo' hparent hname
  refine ⟨n, name, ⟨parts, r, hparts, hrow, hinfo⟩, (matches_of_typeInfo hinfo).token, hname,
    ?references, listedUnder_fullName d, hagrees,
    fullName_of_nestedInItself hnames hrow hinfo hname, hinner, ?innerAgrees⟩
  case references =>
    rintro token htable rfl
    rw [Tables.typeName_of_typeDef htable, hname]
  case innerAgrees =>
    intro inner hmem
    rw [hinner inner hmem, String.append_left_inj, String.append_left_inj, eq_comm]
    exact hagrees

end Names

/-- A type that is nested in itself, and one inside it. -/
def loaderOfNestedInItself : Loader where
  source := {
    executable := ⟨[], 0, 0, 0, 0, 0, 0, 0, [], 0⟩
    header := ⟨0, 0, 0, ⟨0⟩⟩
    tables := {
      modules := [], typeRefs := [], params := [], interfaces := [], memberRefs := []
      constants := [], attributes := [], standAloneSigs := [], eventMaps := [], events := []
      fields := [], methods := [], propertyMaps := [], properties := [], semantics := []
      moduleRefs := [], typeSpecs := [], assemblies := [], assemblyRefs := []
      genericParams := [], methodSpecs := [], userStrings := []
      typeDefs := [⟨0, "<Module>", "", none, [], []⟩, ⟨0, "D", "", none, [], []⟩,
        ⟨0, "Inner", "", none, [], []⟩]
      nestedClasses := [⟨2, 2⟩, ⟨3, 2⟩] } }
  attachments := ⟨[], []⟩

theorem noCycles_loaderOfNestedInItself : NoCycles loaderOfNestedInItself.tables := by
  refine noCycles_of_lt fun n outer hinside => ?_
  obtain ⟨⟨before, after, hsplit, -⟩, hself, -, -⟩ := parent?_eq_some_iff.mp hinside
  have hmem : (⟨n, outer⟩ : NestedClassRow) ∈ loaderOfNestedInItself.tables.nestedClasses := by
    simp [hsplit]
  simp [tables, loaderOfNestedInItself] at hmem
  omega

theorem fullNames_of_types_sample : ∃ ts d n name, loaderOfNestedInItself.types = .ok ts ∧
    (∀ r ∈ loaderOfNestedInItself.tables.typeDefs, r.name ≠ "") ∧ Occurs ts d ∧
    d.info.name = "Inner" ∧ NamedBesideRow loaderOfNestedInItself n name d := by
  have hnames : ∀ r ∈ loaderOfNestedInItself.tables.typeDefs, r.name ≠ "" := by decide
  obtain ⟨ts, outer, inner, hload, houter, hinner, hname⟩ : ∃ ts outer inner,
      loaderOfNestedInItself.types = .ok ts ∧ outer ∈ ts ∧ inner ∈ outer.nested ∧
      inner.info.name = "Inner" :=
    ⟨_, _, _, rfl, .tail _ (.head _), .head _, rfl⟩
  have hoccurs : Occurs ts inner := .inside (.top houter) hinner
  obtain ⟨n, name, hn⟩ := fullNames_of_types hnames hload hoccurs
  exact ⟨ts, inner, n, name, hload, hnames, hoccurs, hname, hn⟩

/-- The type nested in itself has two names, and the one inside it is not named after the
    longer one. -/
theorem fullNames_nestedInItself : ∃ ts d inner, loaderOfNestedInItself.types = .ok ts ∧
    NoCycles loaderOfNestedInItself.tables ∧
    (∀ r ∈ loaderOfNestedInItself.tables.typeDefs, r.name ≠ "") ∧
    Occurs ts d ∧ d.info.token = typeToken 2 ∧ inner ∈ d.nested ∧
    d.info.fullName = "D/D" ∧ loaderOfNestedInItself.tables.typeDefName 2 = .ok "D" ∧
    inner.info.fullName = "D/Inner" := by
  refine ⟨_, _, _, rfl, noCycles_loaderOfNestedInItself, by decide, .top (.tail _ (.head _)),
    rfl, .head _, ?_, ?_, ?_⟩
  all_goals decide +kernel

end Loader

end ILDump
