import ILDump.Text.Utf8
import ILDump.Metadata.Token

/-!
# The contents of a module

What a listing shows of one file, with all names and signatures as texts: the assemblies
it refers to, its own identity if it is an assembly, its header, and its types with
their members. Members stand in the order of the tables they come from; types form a
forest, since types contain types.
-/

namespace ILDump

/-- An attribute: the constructor called and its arguments as stored. -/
structure CustomAttribute where
  constructorText : String
  value : Bytes
deriving DecidableEq, Repr

structure Version where
  major : Int
  minor : Int
  build : Int
  revision : Int
deriving DecidableEq, Repr

def Version.parts (v : Version) : List Int :=
  [v.major, v.minor, v.build, v.revision]

/-- Another assembly that the module uses. -/
structure AssemblyReference where
  name : String
  version : Version
  culture : String
  keyOrToken : Bytes
  /-- Whether `keyOrToken` is the whole public key and not its token. -/
  hasFullKey : Bool
  isRetargetable : Bool
  token : Token
deriving DecidableEq, Repr

/-- The identity of a module that is an assembly. -/
structure AssemblyIdentity where
  name : String
  version : Version
  culture : String
  publicKey : Bytes
  hashAlgorithm : Nat
  isRetargetable : Bool
  customAttributes : List CustomAttribute
deriving DecidableEq, Repr

/-- Name and loading properties of a module. -/
structure ModuleHeader where
  name : String
  /-- The identifier that changes with every build; empty if there is none. -/
  mvid : String
  imageBase : Nat
  fileAlignment : Nat
  stackReserve : Nat
  subsystem : Nat
  corFlags : Nat
  customAttributes : List CustomAttribute
deriving DecidableEq, Repr

structure Instruction where
  /-- The distance from the start of the code. -/
  offset : Int
  mnemonic : String
  operand? : Option String
deriving DecidableEq, Repr

/-- What an exception clause does when an exception passes. -/
inductive Handler where
  /-- Runs for exceptions of a type. -/
  | catches (type? : Option String)
  /-- Runs if the code at an offset says so. -/
  | filters (start? : Option Nat)
  /-- Runs in any case; the keyword says when. -/
  | cleanup (keyword : String)
deriving DecidableEq, Repr

/-- An exception clause. All offsets count from the start of the code. -/
structure ExceptionClause where
  handler : Handler
  tryStart : Nat
  tryEnd : Nat
  handlerStart : Nat
  handlerEnd : Nat
deriving DecidableEq, Repr

structure MethodBody where
  maxStack : Nat
  codeSize : Nat
  initLocals : Bool
  locals? : Option String
  instructions : List Instruction
  exceptionClauses : List ExceptionClause
deriving DecidableEq, Repr

structure FieldDefinition where
  name : String
  fieldType : String
  attributes : List String
  constant? : Option String
  customAttributes : List CustomAttribute
  token : Token
deriving DecidableEq, Repr

structure MethodDefinition where
  name : String
  returnType : String
  parameters : List String
  attributes : List String
  callingConvention : List String
  implAttributes : List String
  genericParameters : List String
  body? : Option MethodBody
  isEntryPoint : Bool
  customAttributes : List CustomAttribute
  token : Token
deriving DecidableEq, Repr

/-- A method that implements a property or event, under its directive. -/
structure Accessor where
  directive : String
  method : String
deriving DecidableEq, Repr

structure PropertyDefinition where
  name : String
  propertyType : String
  parameters : List String
  callingConvention : List String
  attributes : List String
  accessors : List Accessor
  customAttributes : List CustomAttribute
  token : Token
deriving DecidableEq, Repr

structure EventDefinition where
  name : String
  eventType : String
  attributes : List String
  accessors : List Accessor
  customAttributes : List CustomAttribute
  token : Token
deriving DecidableEq, Repr

/-- A type without the types inside it. -/
structure TypeInfo where
  name : String
  namespaceName : String
  attributes : List String
  extends? : Option String
  implements : List String
  genericParameters : List String
  /-- The full name of the type around this one. -/
  enclosing? : Option String
  fields : List FieldDefinition
  methods : List MethodDefinition
  properties : List PropertyDefinition
  events : List EventDefinition
  customAttributes : List CustomAttribute
  token : Token
deriving DecidableEq, Repr

namespace TypeInfo

def isNested (t : TypeInfo) : Bool :=
  t.enclosing?.any (· ≠ "")

/-- A name with its namespace in front, if there is one. -/
def qualify (namespaceName name : String) : String :=
  if namespaceName = "" then name else namespaceName ++ "." ++ name

/-- The name by which the rest of the module refers to the type. -/
def fullName (t : TypeInfo) : String :=
  match t.enclosing? with
  | some outer =>
    if outer = "" then qualify t.namespaceName t.name else outer ++ "/" ++ t.name
  | none => qualify t.namespaceName t.name

end TypeInfo

/-- A type with the types inside it. -/
inductive TypeDefinition where
  | node (info : TypeInfo) (nested : List TypeDefinition)
deriving Repr

namespace TypeDefinition

def info : TypeDefinition → TypeInfo
  | node info _ => info

def nested : TypeDefinition → List TypeDefinition
  | node _ nested => nested

end TypeDefinition

/-- Everything that is shown of one file. -/
structure ModuleImage where
  path : String
  header : ModuleHeader
  assembly? : Option AssemblyIdentity
  references : List AssemblyReference
  types : List TypeDefinition
deriving Repr

end ILDump
