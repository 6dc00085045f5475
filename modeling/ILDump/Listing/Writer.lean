import ILDump.Listing.Identifier
import ILDump.Listing.ByteRows
import ILDump.Listing.MemberOrder
import ILDump.Listing.Output

/-!
# The listing of a module

A listing has four sections: the assemblies referred to, the assembly itself, the module
header, and the types with their members. Each is a sequence of steps, made of the
sequences for its parts. Blocks stand in braces on lines of their own, with everything
between them one level deeper.
-/

namespace ILDump.Listing

def openBlock : String := "\x7b"

def closeBlock : String := "\x7d"

/-- Steps one level deeper. -/
def deeper (steps : List Step) : List Step :=
  .indent :: steps ++ [.unindent]

def words (ws : List String) : String :=
  String.intercalate " " ws

def commas (ws : List String) : String :=
  String.intercalate ", " ws

/-- Generic parameters behind a name. -/
def withGenerics (name : String) (generics : List String) : String :=
  if generics.isEmpty then name else name ++ "<" ++ commas generics ++ ">"

/-! ### Parts of several sections -/

/-- The lines of a directive with bytes in parentheses. Rows after the first start in the
    column of the first. -/
def byteLines (directive : String) (data : Bytes) : List String :=
  let indentation := String.ofList (List.replicate (directive.length + 4) ' ')
  let close : List String → List String := fun rows =>
    match rows.reverse with
    | [] => []
    | last :: before => ((last ++ ")") :: before).reverse
  match close (ByteRows.rows 16 data) with
  | [] => []
  | first :: others => (directive ++ " = (" ++ first) :: others.map (indentation ++ ·)

/-- A directive with bytes in parentheses. -/
def byteDirective (directive : String) (data : Bytes) : List Step :=
  (byteLines directive data).map .line

/-- Attributes, with their arguments if they have any. -/
def customAttributes (attributes : List CustomAttribute) : List Step :=
  attributes.flatMap fun a =>
    if a.value.isEmpty then [.line (".custom " ++ a.constructorText)]
    else byteDirective (".custom " ++ a.constructorText) a.value

def culture (name : String) : List Step :=
  if name = "" then [] else [.line (".culture \"" ++ name ++ "\"")]

/-- Numbers with colons between them. -/
def versionText (parts : List Int) : String :=
  String.intercalate ":" (parts.map toString)

/-- A line with a comment behind it, if there is one. -/
def commented (line : String) (comment? : Option String) : String :=
  match comment? with
  | some comment => line ++ " // " ++ comment
  | none => line

/-! ### References -/

def reference (r : AssemblyReference) : List Step :=
  let directive := if r.isRetargetable then ".assembly extern retargetable" else ".assembly extern"
  let key := if r.hasFullKey then ".publickey" else ".publickeytoken"
  [.line (directive ++ " " ++ Identifier.escapeDotted r.name), .line openBlock] ++
    deeper (
      (if r.keyOrToken.isEmpty then [] else byteDirective key r.keyOrToken) ++
      culture r.culture ++
      [.line (".ver " ++ versionText r.version.parts)]) ++
    [.line closeBlock]

/-- The assemblies referred to, with an empty line behind them. -/
def references (image : ModuleImage) : List Step :=
  image.references.flatMap reference ++ (if image.references.isEmpty then [] else [.line ""])

/-! ### Assembly -/

def hashAlgorithm? : Nat → Option String
  | 0x0000 => some "None"
  | 0x8003 => some "MD5"
  | 0x8004 => some "SHA1"
  | 0x800C => some "SHA256"
  | 0x800D => some "SHA384"
  | 0x800E => some "SHA512"
  | _ => none

def identity (a : AssemblyIdentity) : List Step :=
  let directive := if a.isRetargetable then ".assembly retargetable" else ".assembly"
  [.line (directive ++ " " ++ Identifier.escapeDotted a.name), .line openBlock] ++
    deeper (
      customAttributes a.customAttributes ++
      (if a.publicKey.isEmpty then [] else byteDirective ".publickey" a.publicKey) ++
      [.line (commented (".hash algorithm 0x" ++ Digits.hex .lower 8 a.hashAlgorithm)
        (hashAlgorithm? a.hashAlgorithm))] ++
      culture a.culture ++
      [.line (".ver " ++ versionText a.version.parts)]) ++
    [.line closeBlock]

def assembly (image : ModuleImage) : List Step :=
  match image.assembly? with
  | some a => identity a
  | none => []

/-! ### Module header -/

def subsystem? : Nat → Option String
  | 1 => some "Native"
  | 2 => some "WindowsGui"
  | 3 => some "WindowsCui"
  | 9 => some "WindowsCeGui"
  | _ => none

def corFlags : List (Nat × String) := [
  (0, "ILOnly"), (1, "Required32Bit"), (2, "ILLibrary"), (3, "StrongNameSigned"),
  (4, "NativeEntryPoint"), (16, "TrackDebugData"), (17, "Preferred32Bit")]

/-- The names of the loader flags that are set, if any are. -/
def corFlagsComment? (flags : Nat) : Option String :=
  let names := (corFlags.filter fun f => flags.testBit f.1).map (·.2)
  if names.isEmpty then none else some (commas names)

/-- The module header. The identifier that changes with every build may be left out. -/
def moduleHeader (image : ModuleImage) (skipMvid : Bool) : List Step :=
  let h := image.header
  [.line (".module " ++ Identifier.escape h.name)] ++
    customAttributes h.customAttributes ++
    (if skipMvid || h.mvid = "" then [] else [.line ("// MVID: " ++ h.mvid)]) ++
    [ .line (".imagebase 0x" ++ Digits.hex .lower 8 h.imageBase),
      .line (".file alignment 0x" ++ Digits.hex .lower 8 h.fileAlignment),
      .line (".stackreserve 0x" ++ Digits.hex .lower 8 h.stackReserve),
      .line (commented (".subsystem 0x" ++ Digits.hex .lower 4 h.subsystem)
        (subsystem? h.subsystem)),
      .line (commented (".corflags 0x" ++ Digits.hex .lower 8 h.corFlags)
        (corFlagsComment? h.corFlags)) ]

/-! ### Members -/

/-- The label of an offset in the code. -/
def label (offset : Int) : String :=
  "IL_" ++ Digits.hexInt .lower 4 offset

def field (f : FieldDefinition) : List Step :=
  let constant := match f.constant? with
    | some c => ["=", c]
    | none => []
  .line (words ([".field"] ++ f.attributes ++ [f.fieldType, Identifier.escape f.name] ++ constant)) ::
    customAttributes f.customAttributes

def instruction (i : Instruction) : String :=
  let text := label i.offset ++ ": " ++ i.mnemonic
  match i.operand? with
  | some operand => text ++ " " ++ operand
  | none => text

def handlerText : Handler → String
  | .catches type? =>
    " catch " ++ (match type? with
      | some type => if type = "" then "object" else type
      | none => "object")
  | .filters start? => " filter " ++ label (start?.getD 0)
  | .cleanup keyword => " " ++ keyword

def exceptionClause (c : ExceptionClause) : String :=
  ".try " ++ label c.tryStart ++ " to " ++ label c.tryEnd ++ handlerText c.handler ++
    " handler " ++ label c.handlerStart ++ " to " ++ label c.handlerEnd

def localVariables (b : MethodBody) : List Step :=
  match b.locals? with
  | some locals =>
    if locals = "" then []
    else [.line ((if b.initLocals then ".locals init" else ".locals") ++ " (" ++ locals ++ ")")]
  | none => []

def body (b : MethodBody) : List Step :=
  [ .line ("// Code size " ++ toString b.codeSize ++ " (0x" ++ Digits.hex .lower 1 b.codeSize ++ ")"),
    .line (".maxstack " ++ toString b.maxStack) ] ++
    localVariables b ++
    [.line ""] ++
    b.instructions.map (fun i => .line (instruction i)) ++
    b.exceptionClauses.map (fun c => .line (exceptionClause c))

def methodHead (m : MethodDefinition) : String :=
  let name := withGenerics (Identifier.escape m.name) m.genericParameters
  words ([".method"] ++ m.attributes ++ m.callingConvention ++
    [m.returnType, name ++ " (" ++ commas m.parameters ++ ")"] ++ m.implAttributes)

/-- A method of a type, with an empty line behind it. -/
def method (owner : TypeInfo) (m : MethodDefinition) : List Step :=
  [.line (methodHead m), .line openBlock] ++
    deeper (
      customAttributes m.customAttributes ++
      (if m.isEntryPoint then [.line ".entrypoint"] else []) ++
      (match m.body? with
        | some b => body b
        | none => [])) ++
    [.line (closeBlock ++ " // end of method " ++ owner.name ++ "::" ++ m.name), .line ""]

/-- The attributes and accessors of a property or event. -/
def memberBlock (attributes : List CustomAttribute) (accessors : List Accessor) : List Step :=
  deeper (
    customAttributes attributes ++
    accessors.map fun a => .line (a.directive ++ " " ++ a.method))

/-- The words that are not empty, with blanks between them. -/
def nonemptyWords (ws : List String) : String :=
  words (ws.filter (· ≠ ""))

def property (p : PropertyDefinition) : List Step :=
  [ .line (nonemptyWords ([".property"] ++ p.attributes ++ p.callingConvention ++
      [p.propertyType, Identifier.escape p.name ++ "(" ++ commas p.parameters ++ ")"])),
    .line openBlock ] ++
    memberBlock p.customAttributes p.accessors ++
    [.line (closeBlock ++ " // end of property " ++ p.name)]

def event (e : EventDefinition) : List Step :=
  [ .line (nonemptyWords ([".event"] ++ e.attributes ++ [e.eventType, Identifier.escape e.name])),
    .line openBlock ] ++
    memberBlock e.customAttributes e.accessors ++
    [.line (closeBlock ++ " // end of event " ++ e.name)]

/-! ### Types -/

def typeHead (t : TypeInfo) : String :=
  let name := if t.isNested then Identifier.escape t.name else Identifier.escapeDotted t.fullName
  words ([".class"] ++ t.attributes ++ [withGenerics name t.genericParameters])

/-- The base type and interfaces of a type. -/
def heritage (t : TypeInfo) : List Step :=
  deeper (
    (match t.extends? with
      | some base => if base = "" then [] else [.line ("extends " ++ base)]
      | none => []) ++
    (if t.implements.isEmpty then [] else [.line ("implements " ++ commas t.implements)]))

/-- The members of one kind under their heading, with an empty line behind them. -/
def group (heading : String) (members : List (List Step)) : List Step :=
  if members.isEmpty then [] else .line ("// " ++ heading) :: members.flatten ++ [.line ""]

/-- A type with the steps of the types inside it given. -/
def typeAround (order : MemberOrder) (t : TypeInfo) (nested : List (List Step)) : List Step :=
  [.line (typeHead t)] ++ heritage t ++ [.line openBlock] ++
    deeper (
      customAttributes t.customAttributes ++
      group "Nested Types" nested ++
      group "Fields" ((order.arrange t.fields).map field) ++
      group "Methods" ((order.arrange t.methods).map (method t)) ++
      group "Properties" ((order.arrange t.properties).map property) ++
      group "Events" ((order.arrange t.events).map event)) ++
    [.line (closeBlock ++ " // end of class " ++ t.fullName)]

mutual

def type (order : MemberOrder) : TypeDefinition → List Step
  | .node info nested =>
    typeAround order info ((order.arrange (eachType order nested)).map (·.2))

/-- Types with the steps of each. -/
def eachType (order : MemberOrder) : List TypeDefinition → List (TypeDefinition × List Step)
  | [] => []
  | t :: ts => (t, type order t) :: eachType order ts

end

/-- Whether a type is the holder of global members and holds none. -/
def isEmptyModuleType (t : TypeInfo) : Bool :=
  t.name = "<Module>" && t.fields.isEmpty && t.methods.isEmpty

/-- The types of a module, each with an empty line behind it. -/
def contents (order : MemberOrder) (image : ModuleImage) : List Step :=
  (order.arrange image.types).flatMap fun t =>
    if isEmptyModuleType t.info then [] else type order t ++ [.line ""]

/-! ### The whole listing -/

/-- All sections of a listing. The identifier that changes with every build is left
    out. -/
def all (order : MemberOrder) (image : ModuleImage) : List Step :=
  references image ++ assembly image ++ [.line ""] ++ moduleHeader image true ++ [.line ""] ++
    contents order image

def render (order : MemberOrder) (image : ModuleImage) : String :=
  Step.render (all order image)

end ILDump.Listing
