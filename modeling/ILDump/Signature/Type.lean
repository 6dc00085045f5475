import ILDump.Text.Utf8

/-!
# Types of signatures

The types that a signature blob describes, over an arbitrary kind `ν` of type names:
tokens as they stand in the blob, or texts once the tokens are resolved. Types and
method signatures contain each other, through function pointers.

`TypeSig.text` writes a type the way a listing shows it. Suffixes follow the type they
build on, and custom modifiers stand behind what they modify. Those in front of a pointer's
target or of an array's elements stand behind the suffix of the pointer or the array.
-/

namespace ILDump

/-- Types that need nothing but their element byte. -/
inductive Primitive where
  | void
  | bool
  | char
  | int8
  | uint8
  | int16
  | uint16
  | int32
  | uint32
  | int64
  | uint64
  | float32
  | float64
  | string
  | typedRef
  | nativeInt
  | nativeUInt
  | object
deriving DecidableEq, Repr

namespace Primitive

/-- The element byte of a primitive type. -/
def code : Primitive → UInt8
  | void => 0x01
  | bool => 0x02
  | char => 0x03
  | int8 => 0x04
  | uint8 => 0x05
  | int16 => 0x06
  | uint16 => 0x07
  | int32 => 0x08
  | uint32 => 0x09
  | int64 => 0x0A
  | uint64 => 0x0B
  | float32 => 0x0C
  | float64 => 0x0D
  | string => 0x0E
  | typedRef => 0x16
  | nativeInt => 0x18
  | nativeUInt => 0x19
  | object => 0x1C

def all : List Primitive :=
  [void, bool, char, int8, uint8, int16, uint16, int32, uint32, int64, uint64, float32,
    float64, string, typedRef, nativeInt, nativeUInt, object]

/-- The primitive type with a given element byte. -/
def ofCode? (b : UInt8) : Option Primitive :=
  all.find? fun p => p.code = b

def text : Primitive → String
  | void => "void"
  | bool => "bool"
  | char => "char"
  | int8 => "int8"
  | uint8 => "uint8"
  | int16 => "int16"
  | uint16 => "uint16"
  | int32 => "int32"
  | uint32 => "uint32"
  | int64 => "int64"
  | uint64 => "uint64"
  | float32 => "float32"
  | float64 => "float64"
  | string => "string"
  | typedRef => "typedref"
  | nativeInt => "native int"
  | nativeUInt => "native uint"
  | object => "object"

theorem ofCode?_code (p : Primitive) : ofCode? p.code = some p := by
  cases p <;> decide

end Primitive

/-- Whether a named type is a reference type or a value type. -/
inductive NamedKind where
  | reference
  | valueType
deriving DecidableEq, Repr

def NamedKind.text : NamedKind → String
  | .reference => "class"
  | .valueType => "valuetype"

/-- A custom modifier, which a compiler that does not know it must or may not skip. -/
structure Modifier (ν : Type) where
  required : Bool
  name : ν
deriving DecidableEq, Repr

/-- A parameter, which may be the first one behind the fixed part of a call with a
    variable number of arguments. -/
structure Parameter (τ : Type) where
  afterSentinel : Bool
  type : τ
deriving DecidableEq, Repr

/-- A method signature over types `τ`. -/
structure MethodSig (τ : Type) where
  hasThis : Bool
  explicitThis : Bool
  /-- The low four bits of the calling convention. -/
  kind : Nat
  /-- The number of generic parameters, if the method is generic. -/
  genericCount? : Option Nat
  returnType : τ
  parameters : List (Parameter τ)
deriving DecidableEq, Repr

/-- The types of a signature. -/
inductive TypeSig (ν : Type) where
  | primitive (p : Primitive)
  | named (kind : NamedKind) (name : ν)
  | pointer (modifiers : List (Modifier ν)) (target : TypeSig ν)
  | byRef (target : TypeSig ν)
  /-- A one-dimensional array with bounds from zero. -/
  | vector (modifiers : List (Modifier ν)) (element : TypeSig ν)
  | array (element : TypeSig ν) (rank : Nat) (sizes : List Nat) (lowerBounds : List Int)
  | typeVariable (index : Nat)
  | methodVariable (index : Nat)
  | generic (kind : NamedKind) (name : ν) (arguments : List (TypeSig ν))
  | function (signature : MethodSig (TypeSig ν))
  | modified (modifiers : List (Modifier ν)) (type : TypeSig ν)
  | pinned (type : TypeSig ν)
deriving Repr

namespace MethodSig

variable {τ : Type}

/-- Whether a call may pass more arguments than the signature declares. -/
def isVarArg (s : MethodSig τ) : Bool :=
  s.kind == 5

def genericCount (s : MethodSig τ) : Nat :=
  s.genericCount?.getD 0

def callingConvention (s : MethodSig τ) : List String :=
  (if s.hasThis then ["instance"] else []) ++
    (if s.explicitThis then ["explicit"] else []) ++
    (if s.isVarArg then ["vararg"] else [])

end MethodSig

/-- The parameter list of a listing: an ellipsis stands before the first argument behind
    the fixed part. -/
def parameterTexts (parameters : List (Parameter String)) : List String :=
  parameters.flatMap fun p => if p.afterSentinel then ["...", p.type] else [p.type]

/-- The words of a method signature behind its calling convention, with its types as
    texts. -/
def MethodSig.functionText (s : MethodSig String) : String :=
  String.intercalate " " ("method" :: s.callingConvention ++ [s.returnType]) ++
    " *(" ++ String.intercalate ", " (parameterTexts s.parameters) ++ ")"

def Modifier.text (m : Modifier String) : String :=
  (if m.required then "modreq(" else "modopt(") ++ m.name ++ ")"

/-- A type with its custom modifiers behind it. -/
def withModifiers (type : String) : List (Modifier String) → String
  | [] => type
  | ms => type ++ " " ++ String.intercalate " " (ms.map Modifier.text)

/-- One dimension of an array: `lower...upper`, open above without a size, and empty
    when neither is known. -/
def dimensionText (lower : Option Int) (size : Option Nat) : String :=
  match lower, size with
  | none, none => ""
  | some l, none => toString l ++ "..."
  | l, some s =>
    let start := l.getD 0
    toString start ++ "..." ++ toString (start + s - 1)

/-- All dimensions of an array. Sizes and lower bounds beyond the rank are not shown. -/
def dimensionsText (rank : Nat) (sizes : List Nat) (lowerBounds : List Int) : String :=
  String.intercalate ","
    ((List.range rank).map fun i => dimensionText lowerBounds[i]? sizes[i]?)

namespace TypeSig

mutual

/-- A type as a listing shows it. -/
def text : TypeSig String → String
  | primitive p => p.text
  | named kind name => kind.text ++ " " ++ name
  | pointer ms t => withModifiers (text t ++ "*") ms
  | byRef t => text t ++ "&"
  | vector ms t => withModifiers (text t ++ "[]") ms
  | array t rank sizes lowerBounds =>
    text t ++ "[" ++ dimensionsText rank sizes lowerBounds ++ "]"
  | typeVariable i => "!" ++ toString i
  | methodVariable i => "!!" ++ toString i
  | generic kind name arguments =>
    kind.text ++ " " ++ name ++ "<" ++ String.intercalate ", " (texts arguments) ++ ">"
  | function s => (signatureTexts s).functionText
  | modified ms t => withModifiers (text t) ms
  | pinned t => text t ++ " pinned"

def texts : List (TypeSig String) → List String
  | [] => []
  | t :: ts => text t :: texts ts

/-- A method signature with the texts of its types. -/
def signatureTexts : MethodSig (TypeSig String) → MethodSig String
  | ⟨hasThis, explicitThis, kind, genericCount?, returnType, parameters⟩ =>
    ⟨hasThis, explicitThis, kind, genericCount?, text returnType, typedParameters parameters⟩

/-- Parameters with the texts of their types. -/
def typedParameters : List (Parameter (TypeSig String)) → List (Parameter String)
  | [] => []
  | ⟨afterSentinel, t⟩ :: ps => ⟨afterSentinel, text t⟩ :: typedParameters ps

end

end TypeSig

end ILDump
