import ILDump.Proofs.Listing.Rearrangement
import ILDump.Proofs.Module.Chains
import ILDump.Proofs.Module.Forest
import ILDump.Proofs.Module.Members
import Mathlib.Algebra.Group.Nat.Defs

/-!
# The order of tokens is the order of declaration

What is loaded from the tables comes in the order of rows: types inside another one by the
order of the type rows, members by the runs of the tables, which ascend. A token is its row
with the number of the table above it, so all siblings ascend by token, at every depth, as long
as rows fit into tokens and no type has its properties or events from two runs. Arranging by
token then changes nothing.
-/

namespace ILDump

/-! ### Siblings in the order of their tokens -/

/-- Siblings whose tokens ascend. -/
def Ascending {α : Type} [Listed α] (xs : List α) : Prop :=
  xs.Pairwise fun x y => (Listed.token x).value < (Listed.token y).value

theorem MemberOrder.arrange_byToken_of_ascending {α : Type} [Listed α] {xs : List α}
    (h : Ascending xs) : byToken.arrange xs = xs := by
  refine List.mergeSort_of_pairwise (h.imp fun hlt => ?_)
  exact decide_eq_true (Nat.le_of_lt hlt)

/-- The members of each kind ascend. -/
structure TypeInfo.InTokenOrder (t : TypeInfo) : Prop where
  fields : Ascending t.fields
  methods : Ascending t.methods
  properties : Ascending t.properties
  events : Ascending t.events

/-- Siblings ascend in a type and in all types inside it. -/
inductive TypeDefinition.InTokenOrder : TypeDefinition → Prop where
  | node {info : TypeInfo} {nested : List TypeDefinition} : info.InTokenOrder →
    Ascending nested → (∀ t ∈ nested, TypeDefinition.InTokenOrder t) →
    TypeDefinition.InTokenOrder (.node info nested)

/-- Siblings ascend everywhere in a module. -/
structure ModuleImage.InTokenOrder (image : ModuleImage) : Prop where
  types : Ascending image.types
  inside : ∀ t ∈ image.types, t.InTokenOrder

namespace Listing

theorem typeAround_byToken {t : TypeInfo} (h : t.InTokenOrder) (nested : List (List Step)) :
    typeAround .byToken t nested = typeAround .asDeclared t nested := by
  rw [typeAround, typeAround, MemberOrder.arrange_byToken_of_ascending h.fields,
    MemberOrder.arrange_byToken_of_ascending h.methods,
    MemberOrder.arrange_byToken_of_ascending h.properties,
    MemberOrder.arrange_byToken_of_ascending h.events]
  rfl

/-- By induction over the types inside types. -/
theorem type_byToken {t : TypeDefinition} (h : t.InTokenOrder) :
    type .byToken t = type .asDeclared t := by
  induction h with
  | @node info nested hinfo hnested _ ih =>
    have hinside : nested.map (type .byToken) = nested.map (type .asDeclared) :=
      List.map_congr_left ih
    rw [type_node, type_node, MemberOrder.arrange_byToken_of_ascending hnested, hinside,
      typeAround_byToken hinfo]
    rfl

theorem contents_byToken {image : ModuleImage} (h : image.InTokenOrder) :
    contents .byToken image = contents .asDeclared image := by
  rw [contents, contents, MemberOrder.arrange_byToken_of_ascending h.types]
  refine List.flatMap_congr fun t ht => ?_
  rw [type_byToken (h.inside t ht)]

theorem render_byToken {image : ModuleImage} (h : image.InTokenOrder) :
    render .byToken image = render .asDeclared image := by
  rw [render, render, all, all, contents_byToken h]

end Listing

/-! ### Tokens of rows -/

/-- A row that fits stands below the number of the table. -/
theorem Token.value_ofRow_of_lt {table row : Nat} (h : row < 2 ^ 24) :
    (Token.ofRow table row).value = table * 2 ^ 24 + row := by
  rw [ofRow, ← Nat.shiftLeft_add_eq_or_of_lt h, Nat.shiftLeft_eq]

-- behind that, rows of the properties share their tokens
example : Token.ofRow TableNumber.property (2 ^ 24 + 1) = Token.ofRow TableNumber.property 1 := by
  decide

/-- Rows that fit have tokens in their order. -/
theorem ascending_of_tokens {α : Type} [Listed α] {xs : List α} {table : Nat} {rows : List Nat}
    (htokens : xs.map Listed.token = rows.map (Token.ofRow table)) (hrows : rows.Pairwise (· < ·))
    (hfit : ∀ n ∈ rows, n < 2 ^ 24) : Ascending xs := by
  have hmap : (xs.map Listed.token).Pairwise fun a b => a.value < b.value := by
    rw [htokens, List.pairwise_map]
    refine hrows.imp_of_mem fun hn hm hlt => ?_
    rw [Token.value_ofRow_of_lt (hfit _ hn), Token.value_ofRow_of_lt (hfit _ hm)]
    exact Nat.add_lt_add_left hlt _
  rwa [List.pairwise_map] at hmap

/-! ### Tables -/

namespace Tables

/-- The rows of a run ascend. -/
structure AscendingRuns (t : Tables) : Prop where
  fields : ∀ r ∈ t.typeDefs, r.fields.Pairwise (· < ·)
  methods : ∀ r ∈ t.typeDefs, r.methods.Pairwise (· < ·)
  properties : ∀ r ∈ t.propertyMaps, r.members.Pairwise (· < ·)
  events : ∀ r ∈ t.eventMaps, r.members.Pairwise (· < ·)

/-- No type has properties or events from two runs. -/
structure SingleMaps (t : Tables) : Prop where
  properties : ∀ n, Loader.IsTypeRow t n → (t.propertyMaps.filter (·.type = n)).length ≤ 1
  events : ∀ n, Loader.IsTypeRow t n → (t.eventMaps.filter (·.type = n)).length ≤ 1

/-- Tables of types and members whose rows fit into tokens, as in every file that keeps to its
    format: a token has 24 bits for the number of a row. -/
structure RowsInTokens (t : Tables) : Prop where
  types : t.typeDefs.length < 2 ^ 24
  fields : t.fields.length < 2 ^ 24
  methods : t.methods.length < 2 ^ 24
  properties : t.properties.length < 2 ^ 24
  events : t.events.length < 2 ^ 24

theorem mem_of_row? {α : Type} {rows : List α} {n : Nat} {r : α} (h : row? rows n = some r) :
    r ∈ rows := by
  rw [row?] at h
  split at h
  · cases h
  · exact List.mem_of_getElem? h

theorem run_pairwise (raw : RawTables) (table first : Nat) (next? : Option Nat) :
    (run raw table first next?).Pairwise (· < ·) := by
  rw [run]
  split
  · exact List.pairwise_lt_range' _ (by omega)
  · exact List.Pairwise.nil

/-- The runs in the tables of a file ascend, wherever they start and end. -/
theorem ascendingRuns_ofStreams (s : Streams) : AscendingRuns (ofStreams s) := by
  refine ⟨fun r hr => ?_, fun r hr => ?_, fun r hr => ?_, fun r hr => ?_⟩
  all_goals
    obtain ⟨row, -, hrow⟩ := List.mem_filterMap.mp hr
    split at hrow
    · cases hrow
      exact run_pairwise _ _ _ _
    · cases hrow

end Tables

/-- So do the runs of every file that can be opened. -/
theorem ModuleSource.ascendingRuns {bytes : Bytes} {source : ModuleSource}
    (h : ModuleSource.ofBytes bytes = .ok source) : source.tables.AscendingRuns := by
  obtain ⟨file, hfile, hsource⟩ := exists_of_bind_eq_ok h
  have hopened : OpenedFile.ofBytes bytes = .ok file := by
    change (OpenedFile.ofBytes bytes).mapError ModuleFault.container = .ok file at hfile
    cases hopen : OpenedFile.ofBytes bytes with
    | error e =>
      rw [hopen] at hfile
      cases hfile
    | ok file' =>
      rw [hopen] at hfile
      cases hfile
      rfl
  obtain ⟨x, -, hopened⟩ := exists_of_bind_eq_ok hopened
  obtain ⟨header?, -, hopened⟩ := exists_of_bind_eq_ok hopened
  cases hopened
  cases header? with
  | none => cases hsource
  | some header =>
    cases hstreams : Streams.of? x header with
    | none => simp [OpenedFile.source, hstreams] at hsource
    | some streams =>
      simp only [OpenedFile.source, Option.map_some, hstreams] at hsource
      cases hsource
      exact Tables.ascendingRuns_ofStreams streams

/-! ### What is loaded -/

namespace Loader

variable {l : Loader} {parts : TypeParts}

theorem rowsThere_pairwise {α : Type} (rows : List α) {run : List Nat}
    (h : run.Pairwise (· < ·)) : (rowsThere rows run).Pairwise (· < ·) :=
  h.filter _

/-- The rows of the members that the maps give to a type. -/
def mappedRows {α : Type} (maps : List MemberMapRow) (rows : List α) (type : Nat) : List Nat :=
  (maps.filter (·.type = type)).flatMap fun r => rowsThere rows r.members

theorem mappedRows_cons {α : Type} (r : MemberMapRow) (maps : List MemberMapRow) (rows : List α)
    (type : Nat) :
    mappedRows (r :: maps) rows type =
      (if r.type = type then rowsThere rows r.members else []) ++ mappedRows maps rows type := by
  rw [mappedRows, List.filter_cons]
  by_cases h : r.type = type
  · simp [h, mappedRows]
  · simp [h, mappedRows]

theorem partsOf_append {α : Type} (xs ys : List (Nat × α)) (type : Nat) :
    partsOf (xs ++ ys) type = partsOf xs type ++ partsOf ys type := by
  rw [partsOf, List.filter_append, List.map_append, partsOf, partsOf]

theorem partsOf_map {α : Type} (owner : Nat) (members : List α) (type : Nat) :
    partsOf (members.map (owner, ·)) type = if owner = type then members else [] := by
  rw [partsOf, List.filter_map, List.map_map]
  by_cases h : owner = type
  · simp [h, Function.comp_def]
  · simp [h, Function.comp_def]

/-- The parts of a type are loaded from the runs of its maps, one behind the other. -/
theorem forall₂_partsOf {α β : Type} {load : Nat → α → Except ModuleFault β} {rows : List α}
    {P : Nat → β → Prop} {maps : List MemberMapRow} {loaded : List (List (Nat × β))}
    (hload : ∀ n r b, Tables.row? rows n = some r → load n r = .ok b → P n b)
    (h : (maps.mapM fun r => do
      let members ← loadRun load rows r.members
      return members.map (r.type, ·)) = .ok loaded) (type : Nat) :
    List.Forall₂ P (mappedRows maps rows type) (partsOf loaded.flatten type) := by
  have heach := forall₂_of_mapM h
  clear h
  induction heach with
  | nil => exact .nil
  | @cons r members maps loaded hmembers _ ih =>
    obtain ⟨members, hrun, hmembers⟩ := exists_of_bind_eq_ok hmembers
    cases hmembers
    rw [List.flatten_cons, partsOf_append, partsOf_map, mappedRows_cons]
    refine List.rel_append ?_ ih
    by_cases htype : r.type = type
    · rw [if_pos htype, if_pos htype]
      exact forall₂_of_loadRun (fun n _ => hload n) hrun
    · rw [if_neg htype, if_neg htype]
      exact .nil

theorem token_of_property {n : Nat} {r : PropertyRow} {p : PropertyDefinition}
    (h : l.property n r = .ok p) : p.token = Token.ofRow TableNumber.property n := by
  obtain ⟨signature, -, h⟩ := exists_of_bind_eq_ok h
  cases h
  rfl

theorem token_of_event {n : Nat} {r : EventRow} {e : EventDefinition}
    (h : l.event n r = .ok e) : e.token = Token.ofRow TableNumber.event n := by
  rw [event] at h
  split at h
  all_goals
    obtain ⟨type, -, h⟩ := exists_of_bind_eq_ok h
    cases h
    rfl

/-- What the maps give to types, by tokens. -/
theorem tokens_of_typeParts (h : l.typeParts = .ok parts) (n : Nat) :
    (partsOf parts.properties n).map (·.token) =
        (mappedRows l.tables.propertyMaps l.tables.properties n).map
          (Token.ofRow TableNumber.property) ∧
      (partsOf parts.events n).map (·.token) =
        (mappedRows l.tables.eventMaps l.tables.events n).map (Token.ofRow TableNumber.event) := by
  obtain ⟨interfaces, -, h⟩ := exists_of_bind_eq_ok h
  obtain ⟨properties, hproperties, h⟩ := exists_of_bind_eq_ok h
  obtain ⟨events, hevents, h⟩ := exists_of_bind_eq_ok h
  cases h
  have hpropertyRows := forall₂_partsOf
    (P := fun n (p : PropertyDefinition) => p.token = Token.ofRow TableNumber.property n)
    (fun _ _ _ _ => token_of_property) hproperties n
  have heventRows := forall₂_partsOf
    (P := fun n (e : EventDefinition) => e.token = Token.ofRow TableNumber.event n)
    (fun _ _ _ _ => token_of_event) hevents n
  exact ⟨map_eq_map_of_forall₂ hpropertyRows, map_eq_map_of_forall₂ heventRows⟩

theorem parts_of_typeInfo {n : Nat} {r : TypeDefRow} {info : TypeInfo}
    (h : l.typeInfo parts n r = .ok info) :
    info.properties = partsOf parts.properties n ∧ info.events = partsOf parts.events n := by
  obtain ⟨extends?, enclosing?, fields, methods, -, -, -, -, rfl⟩ := exists_of_typeInfo h
  exact ⟨rfl, rfl⟩

theorem mappedRows_pairwise {α : Type} {maps : List MemberMapRow} (rows : List α) {type : Nat}
    (hruns : ∀ r ∈ maps, r.members.Pairwise (· < ·))
    (hsingle : (maps.filter (·.type = type)).length ≤ 1) :
    (mappedRows maps rows type).Pairwise (· < ·) := by
  have hown : ∀ r ∈ maps.filter (·.type = type), r.members.Pairwise (· < ·) :=
    fun r hr => hruns r (List.mem_filter.mp hr).1
  rw [mappedRows]
  generalize maps.filter (·.type = type) = own at hsingle hown
  match own, hsingle, hown with
  | [], _, _ => exact List.Pairwise.nil
  | [r], _, hown =>
    rw [List.flatMap_singleton]
    exact rowsThere_pairwise rows (hown r (List.mem_singleton_self r))
  | _ :: _ :: _, hsingle, _ =>
    exact absurd (Nat.le_of_succ_le_succ hsingle) (Nat.not_succ_le_zero _)

/-! ### Types -/

theorem inTokenOrder_of_typeInfo (hparts : l.typeParts = .ok parts) {n : Nat} {r : TypeDefRow}
    {info : TypeInfo} (hn : Tables.row? l.tables.typeDefs n = some r)
    (h : l.typeInfo parts n r = .ok info) (hruns : l.tables.AscendingRuns)
    (hmaps : l.tables.SingleMaps) (hfit : l.tables.RowsInTokens) : info.InTokenOrder := by
  have hrow : IsTypeRow l.tables n := Tables.isTypeRow_of_row? hn
  have hr : r ∈ l.tables.typeDefs := Tables.mem_of_row? hn
  have hmatch := matches_of_typeInfo h
  obtain ⟨hproperties, hevents⟩ := parts_of_typeInfo h
  obtain ⟨hpropertyTokens, heventTokens⟩ := tokens_of_typeParts hparts n
  refine ⟨?fields, ?methods, ?properties, ?events⟩
  case fields =>
    exact ascending_of_tokens hmatch.fields (rowsThere_pairwise _ (hruns.fields r hr))
      fun _ hn => Nat.lt_of_le_of_lt (le_length_of_mem_rowsThere hn) hfit.fields
  case methods =>
    exact ascending_of_tokens hmatch.methods (rowsThere_pairwise _ (hruns.methods r hr))
      fun _ hn => Nat.lt_of_le_of_lt (le_length_of_mem_rowsThere hn) hfit.methods
  case properties =>
    rw [hproperties]
    exact ascending_of_tokens hpropertyTokens
      (mappedRows_pairwise _ hruns.properties (hmaps.properties n hrow))
      (lt_of_mem_rowsThere hfit.properties)
  case events =>
    rw [hevents]
    exact ascending_of_tokens heventTokens
      (mappedRows_pairwise _ hruns.events (hmaps.events n hrow))
      (lt_of_mem_rowsThere hfit.events)

/-- Types inside a type or at the top come in the order of their rows. By induction on the
    depth; that no type stands inside itself is not needed. -/
theorem forest_inTokenOrder {t : Tables} {infos : List TypeInfo}
    (htypes : t.typeDefs.length < 2 ^ 24)
    (hinfos : ∀ n info, Tables.row? infos n = some info →
      info.token = typeToken n ∧ info.InTokenOrder) (depth : Nat) (outer? : Option Nat) :
    Ascending (forest t infos depth outer?) ∧
      ∀ ty ∈ forest t infos depth outer?, ty.InTokenOrder := by
  induction depth generalizing outer? with
  | zero => exact ⟨List.Pairwise.nil, fun _ h => absurd h List.not_mem_nil⟩
  | succ depth ih =>
    rw [forest]
    constructor
    · refine List.pairwise_filterMap.mpr ((childrenOf_pairwise outer?).imp_of_mem ?_)
      intro n m _ hm hlt ty hty ty' hty'
      obtain ⟨info, hinfo, rfl⟩ := Option.map_eq_some_iff.mp hty
      obtain ⟨info', hinfo', rfl⟩ := Option.map_eq_some_iff.mp hty'
      have hle := (mem_childrenOf.mp hm).1.2
      change info.token.value < info'.token.value
      rw [(hinfos n info hinfo).1, (hinfos m info' hinfo').1, typeToken, typeToken,
        Token.value_ofRow_of_lt (by omega), Token.value_ofRow_of_lt (by omega)]
      exact Nat.add_lt_add_left hlt _
    · intro ty hty
      obtain ⟨n, hn, hty⟩ := List.mem_filterMap.mp hty
      obtain ⟨info, hinfo, rfl⟩ := Option.map_eq_some_iff.mp hty
      obtain ⟨-, hmembers⟩ := hinfos n info hinfo
      obtain ⟨hnested, hinside⟩ := ih (some n)
      exact .node hmembers hnested hinside

theorem types_inTokenOrder {ts : List TypeDefinition} (h : l.types = .ok ts)
    (hruns : l.tables.AscendingRuns) (hmaps : l.tables.SingleMaps)
    (hfit : l.tables.RowsInTokens) : Ascending ts ∧ ∀ t ∈ ts, t.InTokenOrder := by
  obtain ⟨parts, infos, hparts, hloaded, rfl⟩ := exists_of_types h
  refine forest_inTokenOrder hfit.types (fun n info hinfo => ?_) _ none
  obtain ⟨r, hr, hload⟩ := hloaded.exists_row hinfo
  exact ⟨(matches_of_typeInfo hload).token,
    inTokenOrder_of_typeInfo hparts hr hload hruns hmaps hfit⟩

theorem image_inTokenOrder {path : String} {image : ModuleImage} (h : l.image path = .ok image)
    (hruns : l.tables.AscendingRuns) (hmaps : l.tables.SingleMaps)
    (hfit : l.tables.RowsInTokens) : image.InTokenOrder := by
  obtain ⟨ts, hts, h⟩ := exists_of_bind_eq_ok h
  cases h
  obtain ⟨htypes, hinside⟩ := types_inTokenOrder hts hruns hmaps hfit
  exact ⟨htypes, hinside⟩

end Loader

/-- **The order of tokens is the order of declaration.** In what is loaded from a file, siblings
    of every kind ascend by token at every depth, and so the listing in the order of tokens is
    the one in the order of declaration. The tables are within the bound of the format, by which
    the number of a row has 24 bits in a token: a longer table has rows with no token of their
    own, which is all that `RowsInTokens` excludes. -/
theorem ModuleImage.byToken_eq_asDeclared {decoders : Decoders} {path : String}
    {source : ModuleSource} {image : ModuleImage}
    (hload : ModuleImage.ofSourceWith decoders path source = .ok image)
    (hruns : source.tables.AscendingRuns) (hmaps : source.tables.SingleMaps)
    (hfit : source.tables.RowsInTokens) :
    image.InTokenOrder ∧
      Listing.render .byToken image = Listing.render .asDeclared image := by
  obtain ⟨l, hl, himage⟩ := exists_of_bind_eq_ok hload
  obtain ⟨attachments, -, hl⟩ := exists_of_bind_eq_ok hl
  cases hl
  have horder := Loader.image_inTokenOrder himage hruns hmaps hfit
  exact ⟨horder, Listing.render_byToken horder⟩

/-- Three types, of which the first two lie in the third, with members of every kind. -/
def nestedTypesSource : ModuleSource where
  executable := ⟨[], 0, 0, 0, 0, 0, 0, 0, [], 0⟩
  header := ⟨0, 0, 0, Token.ofRow TableNumber.method 1⟩
  tables := {
    modules := [], typeRefs := [], params := [], interfaces := [], memberRefs := []
    constants := [], standAloneSigs := [], moduleRefs := [], typeSpecs := [], assemblies := []
    assemblyRefs := [], methodSpecs := [], userStrings := [], attributes := [], semantics := []
    genericParams := []
    typeDefs := [⟨0, "Second", "", none, [1], []⟩, ⟨0, "First", "", none, [], [1, 2]⟩,
      ⟨0, "Outer", "N", none, [2, 3], []⟩]
    fields := [⟨0, "f", [0x06, 0x08]⟩, ⟨0, "z", [0x06, 0x08]⟩, ⟨0, "a", [0x06, 0x0E]⟩]
    methods := [⟨0, 0, 0, "put", [0x20, 0x00, 0x01], []⟩, ⟨0, 0, 0, "get", [0x20, 0x00, 0x08], []⟩]
    nestedClasses := [⟨1, 3⟩, ⟨2, 3⟩]
    propertyMaps := [⟨2, [1, 2]⟩]
    properties := [⟨0, "Size", [0x28, 0x00, 0x08]⟩, ⟨0, "Item", [0x28, 0x00, 0x08]⟩]
    eventMaps := [⟨3, [1, 2]⟩]
    events := [⟨0, "Moved", none⟩, ⟨0, "Closed", none⟩] }

theorem ModuleImage.byToken_eq_asDeclared_nestedTypes :
    ∃ image, ModuleImage.ofSourceWith .standard "nested.dll" nestedTypesSource = .ok image ∧
      image.InTokenOrder ∧
      Listing.render .byToken image = Listing.render .asDeclared image := by
  have hok : ∃ image, ModuleImage.ofSourceWith .standard "nested.dll" nestedTypesSource =
      .ok image := ⟨_, rfl⟩
  obtain ⟨image, hload⟩ := hok
  have hruns : nestedTypesSource.tables.AscendingRuns :=
    ⟨by decide, by decide, by decide, by decide⟩
  have hmaps : nestedTypesSource.tables.SingleMaps := by
    have hlength : nestedTypesSource.tables.propertyMaps.length = 1 ∧
        nestedTypesSource.tables.eventMaps.length = 1 := ⟨rfl, rfl⟩
    exact ⟨fun _ _ => hlength.1 ▸ List.length_filter_le _ _,
      fun _ _ => hlength.2 ▸ List.length_filter_le _ _⟩
  have hfit : nestedTypesSource.tables.RowsInTokens :=
    ⟨by decide, by decide, by decide, by decide, by decide⟩
  exact ⟨image, hload, byToken_eq_asDeclared hload hruns hmaps hfit⟩

end ILDump
