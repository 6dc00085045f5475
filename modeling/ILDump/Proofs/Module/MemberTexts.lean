import ILDump.Proofs.Module.FullNames
import ILDump.Proofs.Module.Types

/-!
# Members and references to them

Fields and methods are written twice: where their type is listed, from what was loaded for
their rows, and wherever code refers to them, from the rows alone. A reference finds the type
by looking for the run that has the row; a listing goes through the runs type by type. If no
row is in two runs, both come to the same type, and as both read the same signature and the
same name, a reference names what the listing shows.

Only the parameters differ: where a method is listed they have their names behind their types.
-/

namespace ILDump

open TypeDefinition (Occurs)

/-! ### The type that a row belongs to -/

namespace Tables

/-- If no two runs have a row in common, the last run that has it is the only one. -/
theorem ownerIn_eq_of_mem {runs : List (List Nat)} (hdisjoint : runs.Pairwise List.Disjoint)
    {n member : Nat} {run : List Nat} (hrun : row? runs n = some run) (hmem : member ∈ run) :
    ownerIn runs member = n := by
  obtain ⟨hzero, hget⟩ : n ≠ 0 ∧ runs[n - 1]? = some run := by
    rw [row?] at hrun
    split at hrun
    · cases hrun
    · exact ⟨‹_›, hrun⟩
  obtain ⟨hlt, rfl⟩ := List.getElem?_eq_some_iff.mp hget
  have hfound : ((runs.mapIdx fun i run => (i + 1, run)).reverse.find? fun p =>
      p.2.contains member).isSome := by
    rw [List.find?_isSome]
    refine ⟨(n - 1 + 1, runs[n - 1]), ?_, by simpa using hmem⟩
    exact List.mem_reverse.mpr (List.mem_mapIdx.mpr ⟨n - 1, hlt, rfl⟩)
  obtain ⟨p, hp⟩ := Option.isSome_iff_exists.mp hfound
  obtain ⟨i, hi, rfl⟩ := List.mem_mapIdx.mp (List.mem_reverse.mp (List.mem_of_find?_eq_some hp))
  have hmem' : member ∈ runs[i] := by simpa using List.find?_some hp
  have hi' : i = n - 1 := by
    rw [List.pairwise_iff_getElem] at hdisjoint
    rcases Nat.lt_trichotomy i (n - 1) with hless | heq | hmore
    · exact absurd hmem (hdisjoint _ _ hi hlt hless hmem')
    · exact heq
    · exact absurd hmem' (hdisjoint _ _ hlt hi hmore hmem)
  rw [ownerIn, hp, Option.map_some, Option.getD_some]
  omega

theorem row?_map {α β : Type} (f : α → β) (rows : List α) (n : Nat) :
    row? (rows.map f) n = (row? rows n).map f := by
  rw [row?, row?, List.getElem?_map]
  split <;> rfl

variable {t : Tables} {n member : Nat} {r : TypeDefRow}

theorem fieldOwner_eq (hdisjoint : (t.typeDefs.map (·.fields)).Pairwise List.Disjoint)
    (hrow : row? t.typeDefs n = some r) (hmem : member ∈ r.fields) : t.fieldOwner member = n := by
  refine ownerIn_eq_of_mem hdisjoint ?_ hmem
  rw [row?_map, hrow, Option.map_some]

theorem methodOwner_eq (hdisjoint : (t.typeDefs.map (·.methods)).Pairwise List.Disjoint)
    (hrow : row? t.typeDefs n = some r) (hmem : member ∈ r.methods) : t.methodOwner member = n := by
  refine ownerIn_eq_of_mem hdisjoint ?_ hmem
  rw [row?_map, hrow, Option.map_some]

end Tables

/-! ### Parameters -/

namespace Reader

/-- The number of parameters that a method signature declares. -/
def declaredCount : Reader Nat := do
  let convention ← byte
  if convention.toNat.testBit 4 then
    let _ ← compressed
    compressed
  else
    compressed

theorem length_of_vector {α : Type} {item : Reader α} : ∀ {count : Nat} {c c' : Cursor}
    {xs : List α}, vector item count c = .ok xs c' → xs.length = count
  | 0, c, c', xs, h => by
    cases h
    rfl
  | count + 1, c, c', xs, h => by
    obtain ⟨x, c₁, -, h⟩ := exists_of_bind_run h
    obtain ⟨xs', c₂, hvector, h⟩ := exists_of_bind_run h
    cases h
    rw [List.length_cons, length_of_vector hvector]

theorem exists_run_of_decode {α : Type} {r : Reader α} {blob : Bytes} {a : α}
    (h : r.decode blob = .ok a) : ∃ c, r (Cursor.start blob) = .ok a c := by
  rw [decode, EStateM.run] at h
  split at h
  · cases h
    exact ⟨_, ‹_›⟩
  · cases h

theorem decode_of_run {α : Type} {r : Reader α} {blob : Bytes} {a : α} {c : Cursor}
    (h : r (Cursor.start blob) = .ok a c) : r.decode blob = .ok a := by
  rw [decode, EStateM.run, h]

theorem exists_of_map_run {α β : Type} {r : Reader α} {f : α → β} {b : β} {c c' : Cursor}
    (h : (f <$> r) c = .ok b c') : ∃ a, r c = .ok a c' := by
  change EStateM.map f r c = _ at h
  rw [EStateM.map] at h
  split at h
  · cases h
    exact ⟨_, ‹_›⟩
  · cases h

theorem declaredCount_of_method {ν : Type} {resolve : Token → Except SignatureFault ν}
    {blob : Bytes} {s : MethodSig (TypeSig ν)} (h : (method resolve).decode blob = .ok s) :
    declaredCount.decode blob = .ok s.parameters.length := by
  obtain ⟨c, hrun⟩ := exists_run_of_decode h
  obtain ⟨convention, c₁, hconvention, hrun⟩ := exists_of_bind_run hrun
  dsimp only at hrun
  -- with and without a generic count; behind it both go on alike
  split at hrun
  all_goals
    obtain ⟨genericCount?, c₂, hgeneric, hrun⟩ := exists_of_bind_run hrun
    obtain ⟨count, c₃, hcount, hrun⟩ := exists_of_bind_run hrun
    obtain ⟨returnType, c₄, -, hrun⟩ := exists_of_bind_run hrun
    obtain ⟨parameters, c₅, hparameters, hrun⟩ := exists_of_bind_run hrun
    cases hrun
    have hlength : parameters.length = count := length_of_vector hparameters
    rw [hlength]
    refine decode_of_run (c := c₃) ?_
    rw [declaredCount, bind_eq_of_ok hconvention]
  · obtain ⟨n, hn⟩ := exists_of_map_run hgeneric
    rw [if_pos ‹_›, bind_eq_of_ok hn, hcount]
  · cases hgeneric
    rw [if_neg ‹_›, hcount]

end Reader

theorem TypeSig.length_typedParameters : ∀ ps : List (Parameter (TypeSig String)),
    (TypeSig.typedParameters ps).length = ps.length
  | [] => by rw [TypeSig.typedParameters, List.length_nil, List.length_nil]
  | ⟨_, _⟩ :: ps => by
    rw [TypeSig.typedParameters, List.length_cons, List.length_cons, length_typedParameters ps]

/-- A list of parameters has an entry more for each sentinel in it. -/
theorem length_parameterTexts (ps : List (Parameter String)) :
    (parameterTexts ps).length = ps.length + ps.countP (·.afterSentinel) := by
  induction ps with
  | nil => rfl
  | cons p ps ih =>
    rw [parameterTexts] at ih ⊢
    rw [List.flatMap_cons, List.length_append, ih, List.length_cons, List.countP_cons]
    cases p.afterSentinel <;> simp <;> omega

/-- Without a sentinel the entries are the types. -/
theorem parameterTexts_of_noSentinel {ps : List (Parameter String)}
    (h : ∀ p ∈ ps, p.afterSentinel = false) : parameterTexts ps = ps.map (·.type) := by
  rw [parameterTexts, List.map_eq_flatMap]
  refine List.flatMap_congr fun p hp => ?_
  rw [h p hp, if_neg Bool.false_ne_true]

namespace Loader

/-- The last of the parameter rows in a run that are there and have a number. -/
def LastParam (t : Tables) (run : List Nat) (sequence : Nat) (row : ParamRow) : Prop :=
  ∃ before after, run.filterMap (Tables.row? t.params) = before ++ row :: after ∧
    row.sequence = sequence ∧ ∀ later ∈ after, later.sequence ≠ sequence

theorem parameterName?_eq_some_iff {t : Tables} {r : MethodRow} {sequence : Nat} {name : String} :
    parameterName? t r sequence = some name ↔
      ∃ row, LastParam t r.params sequence row ∧ row.name = name := by
  rw [parameterName?, Option.map_eq_some_iff]
  refine exists_congr fun row => and_congr_left fun _ => ?_
  rw [find?_reverse_eq_some_iff]
  constructor
  · rintro ⟨hsequence, before, after, hsplit, hafter⟩
    exact ⟨before, after, hsplit, of_decide_eq_true hsequence, by simpa using hafter⟩
  · rintro ⟨before, after, hsplit, hsequence, hafter⟩
    exact ⟨decide_eq_true hsequence, before, after, hsplit, by simpa using hafter⟩

/-- An entry of a listed parameter list: a type with the name of the parameter behind it, if it
    has one. -/
def ParameterEntry (t : Tables) (run : List Nat) (sequence : Nat) (type entry : String) : Prop :=
  (∃ row, LastParam t run sequence row ∧ row.name ≠ "" ∧ entry = type ++ " " ++ row.name) ∨
    (∀ row, LastParam t run sequence row → row.name = "") ∧ entry = type

theorem parameterEntry_parameterName? (t : Tables) (r : MethodRow) (sequence : Nat)
    (type : String) : ParameterEntry t r.params sequence type
      (match parameterName? t r sequence with
        | some name => if name = "" then type else type ++ " " ++ name
        | none => type) := by
  have hlast {row : ParamRow} (h : LastParam t r.params sequence row) :
      parameterName? t r sequence = some row.name :=
    parameterName?_eq_some_iff.mpr ⟨row, h, rfl⟩
  cases hname : parameterName? t r sequence with
  | none =>
    refine .inr ⟨fun row h => ?_, rfl⟩
    rw [hlast h] at hname
    cases hname
  | some name =>
    by_cases hempty : name = ""
    · refine .inr ⟨fun row h => ?_, if_pos hempty⟩
      rw [hlast h] at hname
      exact (Option.some.inj hname).trans hempty
    · obtain ⟨row, h, rfl⟩ := parameterName?_eq_some_iff.mp hname
      exact .inl ⟨row, h, hempty, if_neg hempty⟩

theorem parameterEntry_namedParameters (t : Tables) (r : MethodRow) (types : List String) :
    List.Forall₂ (fun p entry => ParameterEntry t r.params p.2 p.1 entry) (types.zipIdx 1)
      (namedParameters t r types) := by
  have hnamed : namedParameters t r types = (types.zipIdx 1).map fun p =>
      match parameterName? t r p.2 with
      | some name => if name = "" then p.1 else p.1 ++ " " ++ name
      | none => p.1 := by
    rw [namedParameters, List.mapIdx_eq_zipIdx_map, List.zipIdx_succ, List.map_map]
    rfl
  rw [hnamed, List.forall₂_map_right_iff, List.forall₂_same]
  exact fun p _ => parameterEntry_parameterName? t r p.2 p.1

/-! ### Members beside their rows -/

/-- A method that was loaded for a row in the run of a type, beside the text that references to
    it have. -/
structure MethodBesideRow (t : Tables) (type : String) (number : Nat) (row : MethodRow)
    (s : MethodSig String) (m : MethodDefinition) : Prop where
  there : Tables.row? t.methods number = some row
  signature : t.methodSignature row.signature = .ok s
  token : m.token = Token.ofRow TableNumber.method number
  reference : t.methodDefText number [] = .ok
    (String.intercalate " " (m.callingConvention ++ [m.returnType]) ++ " " ++
      type ++ "::" ++ m.name ++
      "(" ++ String.intercalate ", " (parameterTexts s.parameters) ++ ")")
  parameters : List.Forall₂ (fun p entry => ParameterEntry t row.params p.2 p.1 entry)
    ((parameterTexts s.parameters).zipIdx 1) m.parameters
  /-- As many as the signature declares, and one entry more for each sentinel. -/
  declared : ∃ count, Reader.declaredCount.decode row.signature = .ok count ∧
    m.parameters.length = count + s.parameters.countP (·.afterSentinel)
  noSentinel : (∀ p ∈ s.parameters, p.afterSentinel = false) →
    parameterTexts s.parameters = s.parameters.map (·.type) ∧
      Reader.declaredCount.decode row.signature = .ok m.parameters.length

structure FieldBesideRow (t : Tables) (type : String) (number : Nat) (f : FieldDefinition) :
    Prop where
  token : f.token = Token.ofRow TableNumber.field number
  reference : t.fieldText number = .ok (f.fieldType ++ " " ++ type ++ "::" ++ f.name)

/-- The members that are listed in a type beside the rows in its runs. -/
structure MembersBesideRow (t : Tables) (n : Nat) (r : TypeDefRow) (info : TypeInfo) : Prop where
  there : Tables.row? t.typeDefs n = some r
  token : info.token = typeToken n
  /-- With the name that is made for the type. -/
  members : ∃ name, t.typeDefName n = .ok name ∧
    List.Forall₂ (fun number m => ∃ row s, MethodBesideRow t name number row s m)
      (rowsThere t.methods r.methods) info.methods ∧
    List.Forall₂ (FieldBesideRow t name) (rowsThere t.fields r.fields) info.fields

theorem declaredCount_of_methodSignature {t : Tables} {blob : Bytes} {s : MethodSig String}
    (h : t.methodSignature blob = .ok s) :
    Reader.declaredCount.decode blob = .ok s.parameters.length := by
  rw [Tables.methodSignature] at h
  cases hdecode : (Reader.method t.typeName).decode blob with
  | error e =>
    rw [hdecode] at h
    cases h
  | ok s' =>
    rw [hdecode] at h
    cases h
    rw [Reader.declaredCount_of_method hdecode, TypeSig.signatureTexts,
      TypeSig.length_typedParameters]

section Members

variable {l : Loader} {n number : Nat} {r : TypeDefRow} {name : String}
  (hname : l.tables.typeDefName n = .ok name)
include hname

theorem methodBesideRow
    (hdisjoint : (l.tables.typeDefs.map (·.methods)).Pairwise List.Disjoint)
    (hrow : Tables.row? l.tables.typeDefs n = some r) (hmem : number ∈ r.methods)
    {row : MethodRow} {m : MethodDefinition}
    (hthere : Tables.row? l.tables.methods number = some row) (h : l.method number row = .ok m) :
    ∃ row s, MethodBesideRow l.tables name number row s m := by
  obtain ⟨s, body?, hsignature, -, rfl⟩ := exists_of_method h
  have hsignature := eq_ok_of_named hsignature
  have hdeclared := declaredCount_of_methodSignature hsignature
  have hentries := parameterEntry_namedParameters l.tables row (parameterTexts s.parameters)
  have hlength := hentries.length_eq
  rw [List.length_zipIdx, length_parameterTexts] at hlength
  refine ⟨row, s, hthere, hsignature, rfl, ?reference, hentries, ⟨_, hdeclared, hlength.symm⟩,
    ?noSentinel⟩
  case reference =>
    rw [Tables.methodDefText, hthere]
    simp only
    rw [Tables.methodOwner_eq hdisjoint hrow hmem, hname, hsignature]
    rfl
  case noSentinel =>
    intro hnone
    have hzero : s.parameters.countP (·.afterSentinel) = 0 :=
      List.countP_eq_zero.mpr fun p hp => by simp [hnone p hp]
    rw [hzero, Nat.add_zero] at hlength
    exact ⟨parameterTexts_of_noSentinel hnone, hlength ▸ hdeclared⟩

theorem fieldBesideRow (hdisjoint : (l.tables.typeDefs.map (·.fields)).Pairwise List.Disjoint)
    (hrow : Tables.row? l.tables.typeDefs n = some r) (hmem : number ∈ r.fields)
    {row : FieldRow} {f : FieldDefinition}
    (hthere : Tables.row? l.tables.fields number = some row) (h : l.field number row = .ok f) :
    FieldBesideRow l.tables name number f := by
  refine ⟨token_of_field h, ?_⟩
  obtain ⟨type, htype, h⟩ := exists_of_bind_eq_ok h
  cases h
  rw [Tables.fieldText, hthere]
  simp only
  rw [Tables.fieldOwner_eq hdisjoint hrow hmem, hname, eq_ok_of_named htype]
  rfl

omit hname in
theorem membersBesideRow {parts : TypeParts} {info : TypeInfo}
    (hfields : (l.tables.typeDefs.map (·.fields)).Pairwise List.Disjoint)
    (hmethods : (l.tables.typeDefs.map (·.methods)).Pairwise List.Disjoint)
    (hrow : Tables.row? l.tables.typeDefs n = some r) (h : l.typeInfo parts n r = .ok info) :
    MembersBesideRow l.tables n r info := by
  obtain ⟨name, hname⟩ := exists_name_of_typeInfo hrow h
  obtain ⟨extends?, enclosing?, fields, methods, -, -, hfieldRun, hmethodRun, rfl⟩ :=
    exists_of_typeInfo h
  refine ⟨hrow, rfl, name, hname, ?methods, ?fields⟩
  case methods =>
    exact forall₂_of_loadRun (fun _ hmem _ _ => methodBesideRow hname hmethods hrow hmem)
      hmethodRun
  case fields =>
    exact forall₂_of_loadRun (fun _ hmem _ _ => fieldBesideRow hname hfields hrow hmem) hfieldRun

end Members

/-- What is listed in the entries of a type occurs in it. -/
theorem exists_occurs_of_mem_entries {ts : List TypeDefinition} {e : Option Token × TypeInfo} :
    ∀ (d : TypeDefinition) (outer? : Option Token), Occurs ts d → e ∈ d.entries outer? →
      ∃ d', Occurs ts d' ∧ d'.info = e.2
  | .node info nested, outer?, hd, he => by
    rw [TypeDefinition.entries, List.mem_cons] at he
    rcases he with rfl | he
    · exact ⟨.node info nested, hd, rfl⟩
    · rw [TypeDefinition.entriesOfEach_eq_flatMap] at he
      obtain ⟨inner, hinner, he⟩ := List.mem_flatMap.mp he
      exact exists_occurs_of_mem_entries inner _ (.inside hd hinner) he
  termination_by d => sizeOf d
  decreasing_by
    have := List.sizeOf_lt_of_mem hinner
    simp only [TypeDefinition.node.sizeOf_spec]
    omega

/-- If no type is nested in itself through others, all that was loaded occurs. -/
theorem exists_occurs {l : Loader} {parts : TypeParts} {infos : List TypeInfo}
    (hacyclic : NoCycles l.tables) (hloaded : LoadedRows l parts infos) {n : Nat}
    {info : TypeInfo} (hinfo : Tables.row? infos n = some info) :
    ∃ d, Occurs (forest l.tables infos l.tables.typeDefs.length none) d ∧ d.info = info := by
  have htokens : ∀ n info, Tables.row? infos n = some info → info.token = typeToken n := by
    intro n info hinfo
    obtain ⟨r, -, hmatch⟩ := hloaded.matches hinfo
    exact hmatch.token
  have honce := entries_perm hacyclic hloaded.length_eq htokens
  have hmem : info ∈ infos := Tables.mem_of_row? hinfo
  rw [← map_rowEntries l.tables infos] at hmem
  obtain ⟨e, he, rfl⟩ := List.mem_map.mp hmem
  rw [← honce.mem_iff, TypeDefinition.entriesOfEach_eq_flatMap] at he
  obtain ⟨d, hd, he⟩ := List.mem_flatMap.mp he
  exact exists_occurs_of_mem_entries d none (.top hd) he

/-- The types that were loaded, with their members beside the rows. -/
structure NamedByReferences (t : Tables) (ts : List TypeDefinition) : Prop where
  /-- Each type, at whatever depth, was loaded for a row. -/
  listed : ∀ d, Occurs ts d → ∃ n r, MembersBesideRow t n r d.info
  /-- No row of a type is left out. -/
  rows : NoCycles t → ∀ n r, Tables.row? t.typeDefs n = some r →
    ∃ d, Occurs ts d ∧ MembersBesideRow t n r d.info

theorem namedByReferences_of_types {l : Loader} {ts : List TypeDefinition}
    (hload : l.types = .ok ts)
    (hfields : (l.tables.typeDefs.map (·.fields)).Pairwise List.Disjoint)
    (hmethods : (l.tables.typeDefs.map (·.methods)).Pairwise List.Disjoint) :
    NamedByReferences l.tables ts := by
  obtain ⟨parts, infos, -, hloaded, rfl⟩ := exists_of_types hload
  constructor
  case listed =>
    intro d hd
    obtain ⟨n, r, hrow, hinfo⟩ := hloaded.exists_row_of_occurs hd
    exact ⟨n, r, membersBesideRow hfields hmethods hrow hinfo⟩
  case rows =>
    intro hacyclic n r hrow
    obtain ⟨info, hinfo⟩ :=
      exists_row?_of_isTypeRow hloaded.length_eq (Tables.isTypeRow_of_row? hrow)
    obtain ⟨d, hd, rfl⟩ := exists_occurs hacyclic hloaded hinfo
    obtain ⟨r', hrow', hinfo⟩ := hloaded.exists_row hinfo
    obtain rfl := Option.some.inj (hrow.symm.trans hrow')
    exact ⟨d, hd, membersBesideRow hfields hmethods hrow hinfo⟩

end Loader

/-- **References name what is listed.** If no row is in the runs of two types, the text of each
    field and method that is listed in a type, and of the row it was loaded for, are made of
    the same parts, with the name of that type. -/
theorem ModuleImage.references_name_members {decoders : Decoders} {path : String}
    {source : ModuleSource} {image : ModuleImage}
    (hload : ModuleImage.ofSourceWith decoders path source = .ok image)
    (hfields : (source.tables.typeDefs.map (·.fields)).Pairwise List.Disjoint)
    (hmethods : (source.tables.typeDefs.map (·.methods)).Pairwise List.Disjoint) :
    Loader.NamedByReferences source.tables image.types := by
  obtain ⟨l, hl, himage⟩ := exists_of_bind_eq_ok hload
  obtain ⟨attachments, -, hl⟩ := exists_of_bind_eq_ok hl
  cases hl
  obtain ⟨ts, htypes, himage⟩ := exists_of_bind_eq_ok himage
  cases himage
  exact Loader.namedByReferences_of_types htypes hfields hmethods

/-- A type with a field and two methods. Of the parameters of the first one, the first has two
    rows, the second has one without a name, and one row is not there; the second one has a
    sentinel. -/
def membersSource : ModuleSource where
  executable := ⟨[], 0, 0, 0, 0, 0, 0, 0, [], 0⟩
  header := ⟨0, 0, 0, ⟨0⟩⟩
  tables := {
    modules := [], typeRefs := [], interfaces := [], memberRefs := [], constants := []
    attributes := [], standAloneSigs := [], nestedClasses := [], eventMaps := [], events := []
    propertyMaps := [], properties := [], semantics := [], moduleRefs := [], typeSpecs := []
    assemblies := [], assemblyRefs := [], genericParams := [], methodSpecs := []
    userStrings := []
    typeDefs := [⟨0, "<Module>", "", none, [], []⟩, ⟨0, "C", "N", none, [1], [1, 2]⟩]
    fields := [⟨0, "f", [0x06, 0x08]⟩]
    methods := [⟨0, 0, 0, "add", [0x20, 0x02, 0x08, 0x08, 0x0E], [1, 2, 3, 4, 9]⟩,
      ⟨0, 0, 0, "print", [0x05, 0x02, 0x01, 0x0E, 0x41, 0x08], []⟩]
    params := [⟨0, "result"⟩, ⟨1, "first"⟩, ⟨1, "left"⟩, ⟨2, ""⟩] }

theorem ModuleImage.references_name_members_sample :
    ∃ image, ModuleImage.ofSourceWith .standard "members.dll" membersSource = .ok image ∧
      (image.types.map fun d => d.info.methods.map (·.parameters)) =
        [[], [["int32 left", "string"], ["string", "...", "int32"]]] ∧
      membersSource.tables.methodDefText 1 [] = .ok "instance int32 N.C::add(int32, string)" ∧
      membersSource.tables.fieldText 1 = .ok "int32 N.C::f" ∧
      Loader.NamedByReferences membersSource.tables image.types := by
  obtain ⟨image, hload, hlisted⟩ : ∃ image,
      ModuleImage.ofSourceWith .standard "members.dll" membersSource = .ok image ∧
        (image.types.map fun d => d.info.methods.map (·.parameters)) =
          [[], [["int32 left", "string"], ["string", "...", "int32"]]] :=
    ⟨_, rfl, by decide +kernel⟩
  refine ⟨image, hload, hlisted, by decide +kernel, by decide +kernel, ?_⟩
  exact references_name_members hload (by simp [membersSource]) (by simp [membersSource])

end ILDump
