import ILDump.Proofs.Metadata.Columns
import ILDump.Proofs.Module.FullNames

/-!
# What side tables attach

Attributes, constants and interfaces stand in tables of their own, scattered over rows that name
what they belong to; properties and events are given to types by rows of maps. All of it is
collected in one walk over each table, under the token or the row that is named, and looked up
when a type or a member is loaded, under a token or a row made anew. What is found is what a walk
over the whole table for this one token or row would find.

So a row is attached to what has the token in its place, and to nothing else. Whether that is what
the row names is a matter of the columns: it is unless the number of the row does not fit into a
token.
-/

namespace ILDump

open TypeDefinition (Occurs)
open Loader (eq_ok_of_named)

/-! ### What the tables say -/

namespace Tables

/-- The rows with attributes of something, in their order. A row without a constructor has no
    attribute. -/
def attributeRows (t : Tables) (token : Token) : List AttributeRow :=
  t.attributes.filter fun r => r.parent? = some token ∧ r.constructor?.isSome = true

structure ShowsAttribute (t : Tables) (r : AttributeRow) (a : CustomAttribute) : Prop where
  constructorText : ∃ token, r.constructor? = some token ∧ t.tokenText token = .ok a.constructorText
  value : a.value = r.value

/-- The attributes of something: one for each of the rows. -/
def AttributesOf (t : Tables) (token : Token) (attributes : List CustomAttribute) : Prop :=
  List.Forall₂ t.ShowsAttribute (t.attributeRows token) attributes

/-- The constant of something, by the last of its rows. -/
inductive ConstantOf (t : Tables) (token : Token) : Option String → Prop where
  | last {before after : List ConstantRow} {c : ConstantRow}
      (split : t.constants = before ++ c :: after) (parent : c.parent? = some token)
      (last : ∀ later ∈ after, later.parent? ≠ some token) :
      ConstantOf t token (some (Constant.text c.elementType c.value))
  | none (h : ∀ c ∈ t.constants, c.parent? ≠ some token) : ConstantOf t token none

/-- The rows with interfaces of a type, in their order. -/
def interfaceRows (t : Tables) (type : Nat) : List InterfaceRow :=
  t.interfaces.filter fun r => r.type = type ∧ r.interface?.isSome = true

def ShowsInterface (t : Tables) (r : InterfaceRow) (name : String) : Prop :=
  ∃ token, r.interface? = some token ∧ t.typeName token = .ok name

/-- What was loaded for a row has its name and its token, and the attributes of that token. -/
structure LoadedFor (t : Tables) (table number : Nat) (name? : Option String) (name : String)
    (token : Token) (attributes : List CustomAttribute) : Prop where
  named : name? = some name
  ofRow : token = Token.ofRow table number
  listed : t.AttributesOf token attributes

end Tables

namespace Loader

/-- A type that was loaded for a row, beside all that the side tables say of it and of its
    members. -/
structure BesideSideTables (t : Tables) (n : Nat) (r : TypeDefRow) (info : TypeInfo) : Prop where
  there : Tables.row? t.typeDefs n = some r
  type : t.LoadedFor TableNumber.typeDef n (some r.name) info.name info.token info.customAttributes
  implements : List.Forall₂ t.ShowsInterface (t.interfaceRows n) info.implements
  fields : List.Forall₂ (fun number (f : FieldDefinition) =>
      t.LoadedFor TableNumber.field number ((Tables.row? t.fields number).map (·.name)) f.name
        f.token f.customAttributes ∧
      t.ConstantOf f.token f.constant?)
    (rowsThere t.fields r.fields) info.fields
  methods : List.Forall₂ (fun number (m : MethodDefinition) =>
      t.LoadedFor TableNumber.method number ((Tables.row? t.methods number).map (·.name)) m.name
        m.token m.customAttributes)
    (rowsThere t.methods r.methods) info.methods
  /-- The rows of all maps of the type, map by map. -/
  properties : List.Forall₂ (fun number (p : PropertyDefinition) =>
      t.LoadedFor TableNumber.property number ((Tables.row? t.properties number).map (·.name))
        p.name p.token p.customAttributes)
    (mappedRows t.propertyMaps t.properties n) info.properties
  events : List.Forall₂ (fun number (e : EventDefinition) =>
      t.LoadedFor TableNumber.event number ((Tables.row? t.events number).map (·.name)) e.name
        e.token e.customAttributes)
    (mappedRows t.eventMaps t.events n) info.events

end Loader

/-! ### Attributes -/

namespace Attachments

variable {t : Tables} {a : Attachments}

/-- By induction on the rows: a row adds to the attributes of its parent, if it has one and a
    constructor. -/
theorem forall₂_attributes {rows : List AttributeRow}
    {found : List (Option (Token × CustomAttribute))}
    (h : List.Forall₂ (fun r o => attributeOf t r = .ok o) rows found) (token : Token) :
    List.Forall₂ t.ShowsAttribute
      (rows.filter fun r => r.parent? = some token ∧ r.constructor?.isSome = true)
      (((found.filterMap id).filter fun p => p.1 = token).map (·.2)) := by
  induction h with
  | nil => exact .nil
  | @cons r o rows found hrow _ ih =>
    rw [attributeOf] at hrow
    cases hparent : r.parent? with
    | none =>
      rw [hparent] at hrow
      cases hrow
      rw [List.filter_cons_of_neg (by simp [hparent])]
      exact ih
    | some parent =>
      cases hconstructor : r.constructor? with
      | none =>
        rw [hparent, hconstructor] at hrow
        cases hrow
        rw [List.filter_cons_of_neg (by simp [hconstructor])]
        exact ih
      | some constructor =>
        rw [hparent, hconstructor] at hrow
        obtain ⟨text, htext, hrow⟩ := exists_of_bind_eq_ok hrow
        cases hrow
        have hfound (x : Token × CustomAttribute) :
            (some x :: found).filterMap id = x :: found.filterMap id := rfl
        rw [hfound]
        by_cases htoken : parent = token
        · rw [List.filter_cons_of_pos (by simp [hparent, hconstructor, htoken]),
            List.filter_cons_of_pos (by simpa using htoken)]
          exact .cons ⟨⟨constructor, hconstructor, htext⟩, rfl⟩ ih
        · rw [List.filter_cons_of_neg (by simp [hparent, htoken]),
            List.filter_cons_of_neg (by simpa using htoken)]
          exact ih

theorem attributesOf_attributesOf (h : Attachments.of t = .ok a) (token : Token) :
    t.AttributesOf token (a.attributesOf token) := by
  obtain ⟨found, hfound, h⟩ := exists_of_bind_eq_ok h
  obtain ⟨accessors, -, h⟩ := exists_of_bind_eq_ok h
  cases h
  exact forall₂_attributes (forall₂_of_mapM hfound) token

end Attachments

namespace Loader

variable {l : Loader} {parts : TypeParts}

/-! ### Constants and interfaces -/

theorem constantOf_constant? (l : Loader) (token : Token) :
    l.tables.ConstantOf token (l.constant? token) := by
  rw [constant?]
  cases hfind : l.tables.constants.reverse.find? fun c => decide (c.parent? = some token) with
  | none =>
    refine .none fun c hc => ?_
    simpa using List.find?_eq_none.mp hfind c (List.mem_reverse.mpr hc)
  | some c =>
    obtain ⟨hparent, before, after, hsplit, hafter⟩ := find?_reverse_eq_some_iff.mp hfind
    exact .last hsplit (of_decide_eq_true hparent) (by simpa using hafter)

/-- By induction on the rows: a row adds to the interfaces of its type, if it has one. -/
theorem forall₂_interfaces {t : Tables} {rows : List InterfaceRow}
    {found : List (List (Nat × String))}
    (h : (rows.mapM fun r =>
      match r.interface? with
      | some token => do
        let name ← named (t.typeName token)
        return [(r.type, name)]
      | none => return []) = .ok found) (n : Nat) :
    List.Forall₂ t.ShowsInterface
      (rows.filter fun r => r.type = n ∧ r.interface?.isSome = true)
      (partsOf found.flatten n) := by
  have heach := forall₂_of_mapM h
  clear h
  induction heach with
  | nil => exact .nil
  | @cons r interfaces rows found hrow _ ih =>
    rw [List.flatten_cons, partsOf_append]
    cases hinterface : r.interface? with
    | none =>
      rw [hinterface] at hrow
      cases hrow
      rw [List.filter_cons_of_neg (by simp [hinterface])]
      exact ih
    | some token =>
      rw [hinterface] at hrow
      obtain ⟨name, hname, hrow⟩ := exists_of_bind_eq_ok hrow
      cases hrow
      have hfound : partsOf [(r.type, name)] n = if r.type = n then [name] else [] :=
        partsOf_map r.type [name] n
      rw [hfound]
      by_cases htype : r.type = n
      · rw [if_pos htype, List.filter_cons_of_pos (by simp [htype, hinterface])]
        exact .cons ⟨token, hinterface, eq_ok_of_named hname⟩ ih
      · rw [if_neg htype, List.filter_cons_of_neg (by simp [htype])]
        exact ih

/-! ### Types and their members -/

section Loaded

variable (hattached : ∀ token, l.tables.AttributesOf token (l.attachments.attributesOf token))
include hattached

theorem besideSideTables_of_typeInfo (hparts : l.typeParts = .ok parts) {n : Nat}
    {r : TypeDefRow} {info : TypeInfo} (hrow : Tables.row? l.tables.typeDefs n = some r)
    (h : l.typeInfo parts n r = .ok info) : BesideSideTables l.tables n r info := by
  obtain ⟨interfaces, hinterfaces, hparts⟩ := exists_of_bind_eq_ok hparts
  obtain ⟨properties, hproperties, hparts⟩ := exists_of_bind_eq_ok hparts
  obtain ⟨events, hevents, hparts⟩ := exists_of_bind_eq_ok hparts
  cases hparts
  obtain ⟨extends?, enclosing?, fields, methods, -, -, hfields, hmethods, rfl⟩ :=
    exists_of_typeInfo h
  refine ⟨hrow, ⟨rfl, rfl, hattached _⟩, forall₂_interfaces hinterfaces n, ?fields, ?methods,
    ?properties, ?events⟩
  case fields =>
    refine forall₂_of_loadRun (fun number _ row f hrow hf => ?_) hfields
    obtain ⟨type, -, hf⟩ := exists_of_bind_eq_ok hf
    cases hf
    exact ⟨⟨by rw [hrow]; rfl, rfl, hattached _⟩, constantOf_constant? l _⟩
  case methods =>
    refine forall₂_of_loadRun (fun number _ row m hrow hm => ?_) hmethods
    obtain ⟨signature, body?, -, -, rfl⟩ := exists_of_method hm
    exact ⟨by rw [hrow]; rfl, rfl, hattached _⟩
  case properties =>
    refine forall₂_partsOf (fun number row p hrow hp => ?_) hproperties n
    obtain ⟨signature, -, hp⟩ := exists_of_bind_eq_ok hp
    cases hp
    exact ⟨by rw [hrow]; rfl, rfl, hattached _⟩
  case events =>
    refine forall₂_partsOf (fun number row e hrow he => ?_) hevents n
    rw [event] at he
    split at he
    all_goals
      obtain ⟨type, -, he⟩ := exists_of_bind_eq_ok he
      cases he
      exact ⟨by rw [hrow]; rfl, rfl, hattached _⟩

end Loaded

end Loader

/-! ### Modules -/

/-- A module that was loaded beside all that the side tables say of it, of its assembly and of
    its types. -/
structure ModuleImage.BesideSideTables (t : Tables) (image : ModuleImage) : Prop where
  header : t.AttributesOf ⟨0x00000001⟩ image.header.customAttributes
  assembly : ∀ a, image.assembly? = some a → t.AttributesOf ⟨0x20000001⟩ a.customAttributes
  /-- Each type, at whatever depth, was loaded for a row. -/
  types : ∀ d, Occurs image.types d → ∃ n r, Loader.BesideSideTables t n r d.info

namespace Loader

variable {l : Loader}

/-- What is attached to a token when loading begins is what the rows say. -/
theorem attributesOf_of_ofWith {decoders : Decoders} {source : ModuleSource}
    (h : Loader.ofWith decoders source = .ok l) :
    l.tables = source.tables ∧
      ∀ token, l.tables.AttributesOf token (l.attachments.attributesOf token) := by
  obtain ⟨attachments, hattachments, h⟩ := exists_of_bind_eq_ok h
  cases h
  exact ⟨rfl, Attachments.attributesOf_attributesOf (eq_ok_of_named hattachments)⟩

theorem besideSideTables_of_image
    (hattached : ∀ token, l.tables.AttributesOf token (l.attachments.attributesOf token))
    {path : String} {image : ModuleImage} (h : l.image path = .ok image) :
    image.BesideSideTables l.tables := by
  obtain ⟨ts, htypes, h⟩ := exists_of_bind_eq_ok h
  cases h
  refine ⟨hattached _, ?assembly, ?types⟩
  case assembly =>
    intro a ha
    obtain ⟨r, -, rfl⟩ := Option.map_eq_some_iff.mp ha
    exact hattached _
  case types =>
    intro d hd
    obtain ⟨parts, infos, hparts, hloaded, rfl⟩ := exists_of_types htypes
    obtain ⟨n, r, hrow, hinfo⟩ := hloaded.exists_row_of_occurs hd
    exact ⟨n, r, besideSideTables_of_typeInfo hattached hparts hrow hinfo⟩

end Loader

/-- **Side tables attach by token.** The module, its assembly, and each type, field, method,
    property and event have the attributes of exactly the rows with their token; a field has
    the constant of the last row with its token; and a type has the interfaces, properties and
    events of exactly the rows for it, all in the order of the rows. If the tables come from
    streams, each of these tokens stands for the row that is named, unless the number of that
    row does not fit into a token. -/
theorem ModuleImage.sideTables_attached {decoders : Decoders} {path : String}
    {source : ModuleSource} {image : ModuleImage}
    (hload : ModuleImage.ofSourceWith decoders path source = .ok image) :
    image.BesideSideTables source.tables ∧
      ∀ s : Streams, source.tables = Tables.ofStreams s →
        Tables.SideColumns (RawTables.ofStream s.tables) source.tables := by
  refine ⟨?attached, fun s hs => hs ▸ Tables.sideColumns_ofStreams s⟩
  obtain ⟨l, hl, himage⟩ := exists_of_bind_eq_ok hload
  obtain ⟨htables, hattached⟩ := Loader.attributesOf_of_ofWith hl
  rw [← htables]
  exact Loader.besideSideTables_of_image hattached himage

/-! ### A row that does not fit -/

/-- Two types, the second one with two fields and a method, and side tables for them. As there
    are more than 2048 module references, what has an attribute is named by four bytes, and the
    last attribute is for a field with the number 0x2000001. -/
def sideStreams : Streams where
  tables := [0, 0, 0, 0, 2, 0, 0, 1, 0x54, 0x1A, 0xA0, 0x04, 0, 0, 0, 0, 0, 0, 0, 0, 0, 0, 0, 0,
      -- how many rows there are
      2, 0, 0, 0, 2, 0, 0, 0, 1, 0, 0, 0, 2, 0, 0, 0, 2, 0, 0, 0, 3, 0, 0, 0, 2, 0, 0, 0,
      2, 0, 0, 0, 1, 8, 0, 0,
      -- types
      0xA0, 0, 0, 0, 9, 0, 0, 0, 0, 0, 1, 0, 1, 0,
      0, 0, 0, 0, 1, 0, 0, 0, 0, 0, 1, 0, 1, 0,
      -- fields and the method
      6, 0, 3, 0, 1, 0,
      6, 0, 5, 0, 1, 0,
      0, 0, 0, 0, 0, 0, 0x86, 0, 7, 0, 4, 0, 1, 0,
      -- interfaces, the second one null
      2, 0, 4, 0,
      2, 0, 0, 0,
      -- constants, both of the first field
      8, 0, 4, 0, 12, 0,
      8, 0, 4, 0, 17, 0,
      -- attributes, the second one without a constructor
      0x41, 0, 0, 0, 10, 0, 0, 0,
      0x41, 0, 0, 0, 0, 0, 0, 0,
      0x21, 0, 0, 0x40, 10, 0, 0, 0,
      -- property maps, both of the second type, and properties
      2, 0, 1, 0,
      2, 0, 2, 0,
      0, 0, 11, 0, 8, 0,
      0, 0, 13, 0, 8, 0] ++
    -- module references
    List.replicate 4098 0
  strings := [0, 0x43, 0, 0x66, 0, 0x67, 0, 0x6D, 0, 0x49, 0, 0x50, 0, 0x51, 0]
  userStrings := []
  guids := []
  blobs := [0, 2, 6, 8, 3, 0x20, 0, 1, 3, 0x28, 0, 8, 4, 1, 0, 0, 0, 4, 2, 0, 0, 0]

def sideSource : ModuleSource where
  executable := ⟨[], 0, 0, 0, 0, 0, 0, 0, [], 0⟩
  header := ⟨0, 0, 0, ⟨0⟩⟩
  tables := .ofStreams sideStreams

theorem ModuleImage.sideTables_attached_sample :
    ∃ image, ModuleImage.ofSourceWith .standard "m.dll" sideSource = .ok image ∧
      (image.types.map fun d => (d.info.name, d.info.implements)) = [("I", []), ("C", ["I"])] ∧
      (image.types.map fun d => d.info.properties.map (·.name)) = [[], ["P", "Q"]] ∧
      (image.types.map fun d => d.info.fields.map (·.constant?)) =
        [[], [some "int32(0x00000002)", none]] ∧
      (image.types.map fun d => d.info.fields.map (·.customAttributes.length)) =
        [[], [0, 1]] ∧
      image.BesideSideTables sideSource.tables ∧
      Tables.SideColumns (RawTables.ofStream sideStreams.tables) sideSource.tables := by
  have hload := eq_ok_get (x := ofSourceWith .standard "m.dll" sideSource) (by decide +kernel)
  obtain ⟨hattached, hcolumns⟩ := ModuleImage.sideTables_attached hload
  exact ⟨_, hload, by decide +kernel, by decide +kernel, by decide +kernel, by decide +kernel,
    hattached, hcolumns sideStreams rfl⟩

/-- The last attribute is for a field of that number, and none is for the method, but the method
    has it. -/
theorem ModuleImage.sideTables_attached_elsewhere :
    ((RawTables.ofStream sideStreams.tables).rowsOf TableNumber.customAttribute).map (·[0]?) =
        [some 0x41, some 0x41, some 0x40000021] ∧
      Schema.hasCustomAttribute.Names 0x41 TableNumber.field 2 ∧
      Schema.hasCustomAttribute.Names 0x40000021 TableNumber.field 0x2000001 ∧
      ∃ image, ModuleImage.ofSourceWith .standard "m.dll" sideSource = .ok image ∧
        ∃ d ∈ image.types, ∃ m ∈ d.info.methods, m.token = Token.ofRow TableNumber.method 1 ∧
          m.customAttributes.map (·.constructorText) = ["instance void C::m()"] := by
  have hload := eq_ok_get (x := ofSourceWith .standard "m.dll" sideSource) (by decide +kernel)
  exact ⟨by decide +kernel, by decide, by decide, _, hload, by decide +kernel⟩

end ILDump
