import ILDump.Container.Executable
import ILDump.Metadata.Heap
import ILDump.Metadata.RawTables
import ILDump.Metadata.Root

/-!
# Tables

The rows of the metadata tables with their columns resolved: texts and blobs taken from
the heaps, indexes checked. Rows are counted from one, and zero stands for no row.

A list column names the first row of a run in another table; the run ends before the one
of the next row, or at the end of that table.
-/

namespace ILDump

structure ModuleRow where
  name : String
  mvid : String
deriving DecidableEq, Repr

structure TypeRefRow where
  scope? : Option Token
  name : String
  namespaceName : String
deriving DecidableEq, Repr

structure TypeDefRow where
  flags : Nat
  name : String
  namespaceName : String
  extends? : Option Token
  /-- Rows of its fields. -/
  fields : List Nat
  methods : List Nat
deriving DecidableEq, Repr

structure FieldRow where
  flags : Nat
  name : String
  signature : Bytes
deriving DecidableEq, Repr

structure MethodRow where
  address : Nat
  implFlags : Nat
  flags : Nat
  name : String
  signature : Bytes
  params : List Nat
deriving DecidableEq, Repr

structure ParamRow where
  sequence : Nat
  name : String
deriving DecidableEq, Repr

structure InterfaceRow where
  type : Nat
  interface? : Option Token
deriving DecidableEq, Repr

structure MemberRefRow where
  parent? : Option Token
  name : String
  signature : Bytes
deriving DecidableEq, Repr

structure ConstantRow where
  elementType : Nat
  parent? : Option Token
  value : Bytes
deriving DecidableEq, Repr

structure AttributeRow where
  parent? : Option Token
  constructor? : Option Token
  value : Bytes
deriving DecidableEq, Repr

/-- The properties or events of a type. -/
structure MemberMapRow where
  type : Nat
  members : List Nat
deriving DecidableEq, Repr

structure EventRow where
  flags : Nat
  name : String
  type? : Option Token
deriving DecidableEq, Repr

structure PropertyRow where
  flags : Nat
  name : String
  signature : Bytes
deriving DecidableEq, Repr

structure SemanticsRow where
  flags : Nat
  method : Nat
  association? : Option Token
deriving DecidableEq, Repr

structure AssemblyRow where
  hashAlgorithm : Nat
  major : Nat
  minor : Nat
  build : Nat
  revision : Nat
  flags : Nat
  publicKey : Bytes
  name : String
  culture : String
deriving DecidableEq, Repr

structure AssemblyRefRow where
  major : Nat
  minor : Nat
  build : Nat
  revision : Nat
  flags : Nat
  keyOrToken : Bytes
  name : String
  culture : String
deriving DecidableEq, Repr

structure NestedClassRow where
  nested : Nat
  enclosing : Nat
deriving DecidableEq, Repr

structure GenericParamRow where
  number : Nat
  owner? : Option Token
  name : String
deriving DecidableEq, Repr

structure MethodSpecRow where
  method? : Option Token
  instantiation : Bytes
deriving DecidableEq, Repr

/-- The metadata tables that a listing is made from. -/
structure Tables where
  modules : List ModuleRow
  typeRefs : List TypeRefRow
  typeDefs : List TypeDefRow
  fields : List FieldRow
  methods : List MethodRow
  params : List ParamRow
  interfaces : List InterfaceRow
  memberRefs : List MemberRefRow
  constants : List ConstantRow
  attributes : List AttributeRow
  standAloneSigs : List Bytes
  eventMaps : List MemberMapRow
  events : List EventRow
  propertyMaps : List MemberMapRow
  properties : List PropertyRow
  semantics : List SemanticsRow
  moduleRefs : List String
  typeSpecs : List Bytes
  assemblies : List AssemblyRow
  assemblyRefs : List AssemblyRefRow
  nestedClasses : List NestedClassRow
  genericParams : List GenericParamRow
  methodSpecs : List MethodSpecRow
  /-- The heap of user strings, which instructions refer to. -/
  userStrings : Bytes
deriving Repr

namespace Tables

/-- The row with a number. -/
def row? {α : Type} (rows : List α) (number : Nat) : Option α :=
  if number = 0 then none else rows[number - 1]?

/-! ### Resolving columns -/

/-- A row number, or zero if there is no such row. -/
def index (raw : RawTables) (table n : Nat) : Nat :=
  if n ≤ RawTables.lookup raw.counts table then n else 0

/-- The token that a coded index stands for, if its table is there and its row is not
    zero. -/
def coded? (raw : RawTables) (c : Schema.Coding) (n : Nat) : Option Token := do
  let table ← (c.tables[n % Nat.pow 2 c.tagBits]?).join
  let row := n / Nat.pow 2 c.tagBits
  if raw.has table ∧ row ≠ 0 then some (Token.ofRow table row) else none

/-- The rows of a run that starts at `first`, before the run that starts at `next`. -/
def run (raw : RawTables) (table first : Nat) (next? : Option Nat) : List Nat :=
  if raw.has table then
    let stop := RawTables.lookup raw.counts table + 1
    let stop := next?.elim stop (min · stop)
    List.range' first (stop - first)
  else []

/-- Pairs each row with the row behind it. -/
def withNext {α : Type} : List α → List (α × Option α)
  | [] => []
  | x :: xs => (x, xs.head?) :: withNext xs

/-- The hash algorithms that an assembly may name; any other counts as none. -/
def hashAlgorithms : List Nat :=
  [0, 0x8003, 0x8004, 0x800C, 0x800D, 0x800E]

/-- Resolves all columns. -/
def ofStreams (s : Streams) : Tables :=
  let raw := RawTables.ofStream s.tables
  let text := Heap.text s.strings
  let blob := Heap.blob s.blobs
  let rows := raw.rowsOf
  let coded? := coded? raw
  let index := index raw
  let run := run raw
  open TableNumber in {
    modules := (rows module).filterMap fun
      | [_, name, mvid, _, _] => some ⟨text name, Heap.guid s.guids mvid⟩
      | _ => none
    typeRefs := (rows typeRef).filterMap fun
      | [scope, name, space] =>
        some ⟨coded? Schema.resolutionScope scope, text name, text space⟩
      | _ => none
    typeDefs := (withNext (rows typeDef)).filterMap fun
      | ([flags, name, space, base, fields, methods], next?) => some {
          flags
          name := text name
          namespaceName := text space
          extends? := coded? Schema.typeDefOrRef base
          fields := run field fields (next?.bind (·[4]?))
          methods := run method methods (next?.bind (·[5]?)) }
      | _ => none
    fields := (rows field).filterMap fun
      | [flags, name, signature] => some ⟨flags, text name, blob signature⟩
      | _ => none
    methods := (withNext (rows method)).filterMap fun
      | ([address, implFlags, flags, name, signature, params], next?) => some {
          address
          implFlags
          flags
          name := text name
          signature := blob signature
          params := run param params (next?.bind (·[5]?)) }
      | _ => none
    params := (rows param).filterMap fun
      | [_, sequence, name] => some ⟨sequence, text name⟩
      | _ => none
    interfaces := (rows interfaceImpl).filterMap fun
      | [type, interface] => some ⟨index typeDef type, coded? Schema.typeDefOrRef interface⟩
      | _ => none
    memberRefs := (rows memberRef).filterMap fun
      | [parent, name, signature] =>
        some ⟨coded? Schema.memberRefParent parent, text name, blob signature⟩
      | _ => none
    constants := (rows constant).filterMap fun
      | [type, parent, value] =>
        some ⟨type % 0x100, coded? Schema.hasConstant parent, blob value⟩
      | _ => none
    attributes := (rows customAttribute).filterMap fun
      | [parent, constructor, value] =>
        some ⟨coded? Schema.hasCustomAttribute parent,
          coded? Schema.customAttributeType constructor, blob value⟩
      | _ => none
    standAloneSigs := (rows standAloneSig).filterMap fun
      | [signature] => some (blob signature)
      | _ => none
    eventMaps := (withNext (rows eventMap)).filterMap fun
      | ([type, events], next?) =>
        some ⟨index typeDef type, run event events (next?.bind (·[1]?))⟩
      | _ => none
    events := (rows event).filterMap fun
      | [flags, name, type] => some ⟨flags, text name, coded? Schema.typeDefOrRef type⟩
      | _ => none
    propertyMaps := (withNext (rows propertyMap)).filterMap fun
      | ([type, properties], next?) =>
        some ⟨index typeDef type, run property properties (next?.bind (·[1]?))⟩
      | _ => none
    properties := (rows property).filterMap fun
      | [flags, name, signature] => some ⟨flags, text name, blob signature⟩
      | _ => none
    semantics := (rows methodSemantics).filterMap fun
      | [flags, implementation, association] =>
        some ⟨flags, index method implementation, coded? Schema.hasSemantics association⟩
      | _ => none
    moduleRefs := (rows moduleRef).filterMap fun
      | [name] => some (text name)
      | _ => none
    typeSpecs := (rows typeSpec).filterMap fun
      | [signature] => some (blob signature)
      | _ => none
    assemblies := (rows assembly).filterMap fun
      | [hash, major, minor, build, revision, flags, key, name, culture] => some {
          hashAlgorithm := if hashAlgorithms.contains hash then hash else 0
          major
          minor
          build
          revision
          flags
          publicKey := blob key
          name := text name
          culture := text culture }
      | _ => none
    assemblyRefs := (rows assemblyRef).filterMap fun
      | [major, minor, build, revision, flags, key, name, culture, _] => some {
          major
          minor
          build
          revision
          flags
          keyOrToken := blob key
          name := text name
          culture := text culture }
      | _ => none
    nestedClasses := (rows nestedClass).filterMap fun
      | [nested, enclosing] => some ⟨index typeDef nested, index typeDef enclosing⟩
      | _ => none
    genericParams := (rows genericParam).filterMap fun
      | [number, _, owner, name] =>
        some ⟨number, coded? Schema.typeOrMethodDef owner, text name⟩
      | _ => none
    methodSpecs := (rows methodSpec).filterMap fun
      | [method, instantiation] =>
        some ⟨coded? Schema.methodDefOrRef method, blob instantiation⟩
      | _ => none
    userStrings := s.userStrings }

end Tables

end ILDump
