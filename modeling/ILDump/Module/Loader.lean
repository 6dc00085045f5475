import ILDump.Module.Source
import ILDump.Module.Attachments
import ILDump.Module.Constant
import ILDump.Path

/-!
# Loading a module

From the tables to the contents of a module. Rows keep their order, and types are put
into the types around them. The first thing that cannot be read stops the loading.
-/

namespace ILDump

/-- Everything that the rows of a module are loaded from. -/
structure Loader where
  source : ModuleSource
  attachments : Attachments
  /-- The method body at an address. -/
  code : Nat → Except ModuleFault Code := Decoders.standard.code source.executable

namespace Loader

def tables (l : Loader) : Tables :=
  l.source.tables

/-- Prepares loading; the texts of attributes and accessors are made here. -/
def ofWith (decoders : Decoders) (source : ModuleSource) : Except ModuleFault Loader := do
  let attachments ← (Attachments.of source.tables).mapError .ofNaming
  return { source, attachments, code := decoders.code source.executable }

def of (source : ModuleSource) : Except ModuleFault Loader :=
  ofWith .standard source

/-- Brings in an outcome of naming. -/
def named {α : Type} (x : Except SignatureFault α) : Except ModuleFault α :=
  x.mapError .ofNaming

/-- The constant of a field; of several the last one counts. -/
def constant? (l : Loader) (token : Token) : Option String :=
  (l.tables.constants.reverse.find? fun c => c.parent? = some token).map
    fun c => Constant.text c.elementType c.value

/-! ### References, assembly and module header -/

def references (l : Loader) : List AssemblyReference :=
  l.tables.assemblyRefs.mapIdx fun i r => {
    name := r.name
    version := ⟨r.major, r.minor, r.build, r.revision⟩
    culture := r.culture
    keyOrToken := r.keyOrToken
    hasFullKey := Flags.hasFullKey r.flags
    isRetargetable := Flags.isRetargetable r.flags
    token := Token.ofRow TableNumber.assemblyRef (i + 1) }

def assembly? (l : Loader) : Option AssemblyIdentity :=
  l.tables.assemblies.head?.map fun r => {
    name := r.name
    version := ⟨r.major, r.minor, r.build, r.revision⟩
    culture := r.culture
    publicKey := r.publicKey
    hashAlgorithm := r.hashAlgorithm
    isRetargetable := Flags.isRetargetable r.flags
    customAttributes := l.attachments.attributesOf (Token.ofRow TableNumber.assembly 1) }

/-- The module header. Without a module row the module has the name of its file. -/
def header (l : Loader) (path : String) : ModuleHeader :=
  let row? := l.tables.modules.head?
  let x := l.source.executable
  { name := row?.elim (Path.ofString path).name (·.name)
    mvid := row?.elim "" (·.mvid)
    imageBase := x.imageBase
    fileAlignment := x.fileAlignment
    stackReserve := x.stackReserve
    subsystem := x.subsystem
    corFlags := l.source.header.flags
    customAttributes := l.attachments.attributesOf (Token.ofRow TableNumber.module 1) }

/-! ### Method bodies -/

/-- The label of a branch target in code that starts at an address. -/
def targetText (start : Nat) (target : Int) : String :=
  "IL_" ++ Digits.hexInt .lower 4 (target - start)

def operandText (t : Tables) (start : Nat) : Operand → Except SignatureFault (Option String)
  | .none => return none
  | .integer n => return some (toString n)
  | .real32 bits => return some (Decimal.text32 bits)
  | .real64 bits => return some (Decimal.text64 bits)
  | .token token => return some (← t.tokenText token)
  | .string token => return some (t.stringText token)
  | .target target => return some (targetText start target)
  | .targets targets =>
    return some ("(" ++ String.intercalate ", " (targets.map (targetText start)) ++ ")")
  | .argument number => return some ("A_" ++ toString number)
  | .localVariable number => return some ("V_" ++ toString number)

/-- An instruction of code that starts at an address, with its offset from there. -/
def instruction (t : Tables) (start : Nat) (i : CodeInstruction) :
    Except SignatureFault Instruction := do
  let operand? ← operandText t start i.operand
  return ⟨i.address - start, i.mnemonic, operand?⟩

/-- What an exception clause does, by its flags. -/
def handler (t : Tables) (c : CodeClause) : Except SignatureFault Handler :=
  if c.flags % 8 = 0 then do
    let type ← t.typeName ⟨c.last⟩
    return .catches (some type)
  else if c.flags.testBit 0 then return .filters (some c.last)
  else if c.flags.testBit 1 then return .cleanup "finally"
  else return .cleanup "fault"

/-- A clause with what it does. -/
def clauseWith (c : CodeClause) (handler : Handler) : ExceptionClause where
  handler
  tryStart := c.tryStart
  tryEnd := c.tryStart + c.tryLength
  handlerStart := c.handlerStart
  handlerEnd := c.handlerStart + c.handlerLength

def exceptionClause (t : Tables) (c : CodeClause) : Except SignatureFault ExceptionClause := do
  let handler ← handler t c
  return clauseWith c handler

/-- The types of local variables, numbered. -/
def localsText (types : List (TypeSig String)) : String :=
  String.intercalate ", " (types.mapIdx fun i type => type.text ++ " V_" ++ toString i)

/-- The local variables of a body. -/
def locals? (t : Tables) (token : Token) : Except SignatureFault (Option String) :=
  if token.table = TableNumber.standAloneSig then
    match Tables.row? t.standAloneSigs token.row with
    | some blob => do
      let types ← (Reader.locals t.typeName).decode blob
      return some (localsText types)
    | none => return none
  else return none

def bodyWith (c : Code) (locals? : Option String) (exceptionClauses : List ExceptionClause)
    (instructions : List Instruction) : MethodBody where
  maxStack := c.maxStack
  codeSize := c.size
  initLocals := c.initLocals
  locals?
  instructions
  exceptionClauses

/-- A body with the texts of what it refers to. -/
def bodyOf (t : Tables) (c : Code) : Except SignatureFault MethodBody := do
  let locals? ← locals? t c.localsToken
  let clauses ← c.clauses.mapM (exceptionClause t)
  let instructions ← c.instructions.mapM (instruction t c.start)
  return bodyWith c locals? clauses instructions

def body (l : Loader) (address : Nat) : Except ModuleFault MethodBody := do
  let code ← l.code address
  named (bodyOf l.tables code)

/-! ### Members -/

def fieldWith (l : Loader) (number : Nat) (r : FieldRow) (type : String) : FieldDefinition :=
  let token := Token.ofRow TableNumber.field number
  { name := r.name
    fieldType := type
    attributes := Flags.fieldWords r.flags
    constant? := l.constant? token
    customAttributes := l.attachments.attributesOf token
    token }

def field (l : Loader) (number : Nat) (r : FieldRow) : Except ModuleFault FieldDefinition := do
  let type ← named (l.tables.fieldType r.signature)
  return l.fieldWith number r type

def propertyWith (l : Loader) (number : Nat) (r : PropertyRow) (signature : MethodSig String) :
    PropertyDefinition :=
  let token := Token.ofRow TableNumber.property number
  { name := r.name
    propertyType := signature.returnType
    parameters := parameterTexts signature.parameters
    callingConvention := signature.callingConvention
    attributes := Flags.memberWords r.flags
    accessors := l.attachments.accessorsOf token
    customAttributes := l.attachments.attributesOf token
    token }

def property (l : Loader) (number : Nat) (r : PropertyRow) :
    Except ModuleFault PropertyDefinition := do
  let signature ← named ((Reader.property l.tables.typeName).decode r.signature)
  return l.propertyWith number r (TypeSig.signatureTexts signature)

def eventWith (l : Loader) (number : Nat) (r : EventRow) (type : String) : EventDefinition :=
  let token := Token.ofRow TableNumber.event number
  { name := r.name
    eventType := type
    attributes := Flags.memberWords r.flags
    accessors := l.attachments.accessorsOf token
    customAttributes := l.attachments.attributesOf token
    token }

def event (l : Loader) (number : Nat) (r : EventRow) : Except ModuleFault EventDefinition := do
  let type ← match r.type? with
    | some type => named (l.tables.typeName type)
    | none => pure ""
  return l.eventWith number r type

/-- The name of the parameter with a number; of several the last one counts. -/
def parameterName? (t : Tables) (r : MethodRow) (sequence : Nat) : Option String :=
  let rows := r.params.filterMap (Tables.row? t.params)
  (rows.reverse.find? fun p => p.sequence = sequence).map (·.name)

/-- Parameter types with the names of the parameters behind them. -/
def namedParameters (t : Tables) (r : MethodRow) (types : List String) : List String :=
  types.mapIdx fun i type =>
    match parameterName? t r (i + 1) with
    | some name => if name = "" then type else type ++ " " ++ name
    | none => type

/-- Whether a method has a body that can be listed. -/
def hasBody (r : MethodRow) : Bool :=
  r.address ≠ 0 && Flags.isIntermediate r.implFlags && !Flags.isAbstract r.flags

def methodWith (l : Loader) (number : Nat) (r : MethodRow) (signature : MethodSig String)
    (body? : Option MethodBody) : MethodDefinition :=
  let token := Token.ofRow TableNumber.method number
  { name := r.name
    returnType := signature.returnType
    parameters := namedParameters l.tables r (parameterTexts signature.parameters)
    attributes := Flags.methodWords r.flags
    callingConvention := signature.callingConvention
    implAttributes := Flags.implWords r.implFlags
    genericParameters := l.tables.genericParameters token
    body?
    isEntryPoint := token = l.source.header.entryPoint
    customAttributes := l.attachments.attributesOf token
    token }

def method (l : Loader) (number : Nat) (r : MethodRow) : Except ModuleFault MethodDefinition := do
  let signature ← named (l.tables.methodSignature r.signature)
  let body? ← if hasBody r then some <$> l.body r.address else pure none
  return l.methodWith number r signature body?

/-- Loads the rows of a run, leaving out rows that are not there. -/
def loadRun {α β : Type} (load : Nat → α → Except ModuleFault β) (rows : List α)
    (run : List Nat) : Except ModuleFault (List β) :=
  (run.filterMap fun n => (Tables.row? rows n).map (n, ·)).mapM fun p => load p.1 p.2

/-! ### Types -/

/-- What the side tables say about types, by the rows of the types. -/
structure TypeParts where
  interfaces : List (Nat × String)
  properties : List (Nat × PropertyDefinition)
  events : List (Nat × EventDefinition)

/-- The parts of a type. -/
def partsOf {α : Type} (parts : List (Nat × α)) (type : Nat) : List α :=
  (parts.filter fun p => p.1 = type).map (·.2)

/-- Loads interfaces, properties and events of all types. -/
def typeParts (l : Loader) : Except ModuleFault TypeParts := do
  let t := l.tables
  let interfaces ← t.interfaces.mapM fun r =>
    match r.interface? with
    | some token => do
      let name ← named (t.typeName token)
      return [(r.type, name)]
    | none => return []
  let properties ← t.propertyMaps.mapM fun r => do
    let members ← loadRun l.property t.properties r.members
    return members.map (r.type, ·)
  let events ← t.eventMaps.mapM fun r => do
    let members ← loadRun l.event t.events r.members
    return members.map (r.type, ·)
  return ⟨interfaces.flatten, properties.flatten, events.flatten⟩

def typeWith (l : Loader) (parts : TypeParts) (number : Nat) (r : TypeDefRow)
    (extends? enclosing? : Option String) (fields : List FieldDefinition)
    (methods : List MethodDefinition) : TypeInfo :=
  let token := Token.ofRow TableNumber.typeDef number
  { name := r.name
    namespaceName := r.namespaceName
    attributes := Flags.typeWords r.flags
    extends?
    implements := partsOf parts.interfaces number
    genericParameters := l.tables.genericParameters token
    enclosing?
    fields
    methods
    properties := partsOf parts.properties number
    events := partsOf parts.events number
    customAttributes := l.attachments.attributesOf token
    token }

/-- A type without the types inside it. Its base is named first, then the type around it. -/
def typeInfo (l : Loader) (parts : TypeParts) (number : Nat) (r : TypeDefRow) :
    Except ModuleFault TypeInfo := do
  let t := l.tables
  let extends? ← match r.extends? with
    | some base => some <$> named (t.typeName base)
    | none => pure none
  let enclosing? ← named (t.around? number)
  let fields ← loadRun l.field t.fields r.fields
  let methods ← loadRun l.method t.methods r.methods
  return l.typeWith parts number r extends? enclosing? fields methods

/-- The row of the type around a type, if it is there and another one. -/
def parent? (t : Tables) (number : Nat) : Option Nat :=
  (t.outer? number).filter fun outer => outer ≤ t.typeDefs.length

/-- The rows of the types that stand directly inside a type, or at the top. -/
def childrenOf (t : Tables) (outer? : Option Nat) : List Nat :=
  (List.range' 1 t.typeDefs.length).filter fun n => parent? t n = outer?

/-- The forest of types below a type or at the top, at most `depth` deep. -/
def forest (t : Tables) (infos : List TypeInfo) : Nat → Option Nat → List TypeDefinition
  | 0, _ => []
  | depth + 1, outer? =>
    (childrenOf t outer?).filterMap fun n =>
      (Tables.row? infos n).map fun info => .node info (forest t infos depth (some n))

def types (l : Loader) : Except ModuleFault (List TypeDefinition) := do
  let parts ← l.typeParts
  let infos ← (l.tables.typeDefs.mapIdx fun i r => (i + 1, r)).mapM fun p =>
    l.typeInfo parts p.1 p.2
  return forest l.tables infos l.tables.typeDefs.length none

def image (l : Loader) (path : String) : Except ModuleFault ModuleImage := do
  let types ← l.types
  return ⟨path, l.header path, l.assembly?, l.references, types⟩

end Loader

namespace ModuleImage

/-- The contents of a file whose tables were found. The path is only what messages and the
    header name it. -/
def ofSourceWith (decoders : Decoders) (path : String) (source : ModuleSource) :
    Except ModuleFault ModuleImage := do
  let loader ← Loader.ofWith decoders source
  loader.image path

def ofBytesWith (decoders : Decoders) (path : String) (bytes : Bytes) :
    Except ModuleFault ModuleImage := do
  let source ← decoders.source bytes
  ofSourceWith decoders path source

def ofBytes (path : String) (bytes : Bytes) : Except ModuleFault ModuleImage :=
  ofBytesWith .standard path bytes

end ModuleImage

end ILDump
