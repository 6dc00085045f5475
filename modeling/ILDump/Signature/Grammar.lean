import ILDump.Signature.Cursor
import ILDump.Signature.Type

/-!
# The grammar of signatures

Readers for every production of the signature grammar. `resolve` turns the type tokens
of a blob into names while reading, so a name that cannot be found out stops the reader
where its token ended.

The recursive productions are written over a reader `item` for the types inside them
(`typeOf`, `parameterOf`, `methodOf`); `typeWithin` closes the knot. Every type takes at
least its element byte, so a nesting bound of one more than the bytes left is never
reached.
-/

namespace ILDump.Reader

variable {ν τ : Type}

/-- The byte that announces a custom modifier that must be understood. -/
def requiredModifierByte : UInt8 := 0x1F

/-- The byte that announces a custom modifier that may be ignored. -/
def optionalModifierByte : UInt8 := 0x20

/-- The byte before the first parameter behind the fixed part of a call. -/
def sentinelByte : UInt8 := 0x41

/-- Whether a custom modifier starts with this byte. -/
def isModifierByte (b : UInt8) : Bool :=
  b == requiredModifierByte || b == optionalModifierByte

def typeName (resolve : Token → Except SignatureFault ν) : Reader ν := do
  let token ← typeToken
  lift (resolve token)

def modifier (resolve : Token → Except SignatureFault ν) : Reader (Modifier ν) := do
  let b ← byte
  let name ← typeName resolve
  return ⟨b == requiredModifierByte, name⟩

/-- At most `bound` custom modifiers in a row. -/
def modifiersWithin (resolve : Token → Except SignatureFault ν) :
    Nat → Reader (List (Modifier ν))
  | 0 => pure []
  | bound + 1 => do
    match ← peek? with
    | none => return []
    | some b =>
      if isModifierByte b then
        let m ← modifier resolve
        let ms ← modifiersWithin resolve bound
        return m :: ms
      else
        return []

/-- All custom modifiers in a row. Each takes at least a byte, so the bytes left bound
    their number. -/
def modifiers (resolve : Token → Except SignatureFault ν) : Reader (List (Modifier ν)) := do
  let bound ← remaining
  modifiersWithin resolve bound

/-- Attaches custom modifiers to a type, if there are any. -/
def modify (ms : List (Modifier ν)) (t : TypeSig ν) : TypeSig ν :=
  if ms.isEmpty then t else .modified ms t

/-- A type with the custom modifiers before it. -/
def parameterOf (resolve : Token → Except SignatureFault ν) (item : Reader (TypeSig ν)) :
    Reader (TypeSig ν) := do
  let ms ← modifiers resolve
  let t ← item
  return modify ms t

/-- Whether the sentinel comes next; moves past it. -/
def sentinel : Reader Bool := do
  match ← peek? with
  | some b =>
    if b == sentinelByte then
      let _ ← byte
      return true
    else
      return false
  | none => return false

/-- A parameter of a method, with the sentinel that may stand before it. -/
def methodParameter (parameter : Reader τ) : Reader (Parameter τ) := do
  let afterSentinel ← sentinel
  let type ← parameter
  return ⟨afterSentinel, type⟩

/-- A method signature: calling convention, number of generic parameters if there are
    any, number of parameters, return type, parameters. -/
def methodOf (parameter : Reader τ) : Reader (MethodSig τ) := do
  let convention ← byte
  let genericCount? ←
    if convention.toNat.testBit 4 then some <$> compressed else pure none
  let count ← compressed
  let returnType ← parameter
  let parameters ← vector (methodParameter parameter) count
  return {
    hasThis := convention.toNat.testBit 5
    explicitThis := convention.toNat.testBit 6
    kind := convention.toNat % 16
    genericCount?
    returnType
    parameters }

/-- The kind of a generic type. Any byte but the one of value types stands for a
    reference type. -/
def genericKind : Reader NamedKind := do
  let b ← byte
  return if b == 0x11 then .valueType else .reference

/-- What follows the element byte of a type other than a custom modifier. -/
def typeAfter (resolve : Token → Except SignatureFault ν) (item : Reader (TypeSig ν))
    (element : UInt8) : Reader (TypeSig ν) := do
  match Primitive.ofCode? element with
  | some p => return .primitive p
  | none =>
    if element == 0x12 then
      return .named .reference (← typeName resolve)
    else if element == 0x11 then
      return .named .valueType (← typeName resolve)
    else if element == 0x0F then
      let ms ← modifiers resolve
      return .pointer ms (← item)
    else if element == 0x10 then
      return .byRef (← item)
    else if element == 0x1D then
      let ms ← modifiers resolve
      return .vector ms (← item)
    else if element == 0x14 then
      let t ← item
      let rank ← compressed
      let sizeCount ← compressed
      let sizes ← vector compressed sizeCount
      let boundCount ← compressed
      let lowerBounds ← vector compressedSigned boundCount
      return .array t rank sizes lowerBounds
    else if element == 0x13 then
      return .typeVariable (← compressed)
    else if element == 0x1E then
      return .methodVariable (← compressed)
    else if element == 0x15 then
      let kind ← genericKind
      let name ← typeName resolve
      let count ← compressed
      return .generic kind name (← vector item count)
    else if element == 0x1B then
      return .function (← methodOf (parameterOf resolve item))
    else if element == 0x45 then
      return .pinned (← item)
    else
      throw (.unknownElement element ((← offset) - 1))

/-- One type, with `item` for the types inside it. Custom modifiers in front are read
    together with the type they modify. -/
def typeOf (resolve : Token → Except SignatureFault ν) (item : Reader (TypeSig ν)) :
    Reader (TypeSig ν) := do
  let next ← peek?
  if next.any isModifierByte then
    let ms ← modifiers resolve
    return .modified ms (← item)
  else
    let element ← byte
    typeAfter resolve item element

/-- A type nested less than `bound` deep. -/
def typeWithin (resolve : Token → Except SignatureFault ν) : Nat → Reader (TypeSig ν)
  | 0 => do throw (.truncated (← offset))
  | bound + 1 => typeOf resolve (typeWithin resolve bound)

/-- One type. -/
def type (resolve : Token → Except SignatureFault ν) : Reader (TypeSig ν) := do
  let left ← remaining
  typeWithin resolve (left + 1)

/-- A type with the custom modifiers before it, if any. -/
def parameter (resolve : Token → Except SignatureFault ν) : Reader (TypeSig ν) :=
  parameterOf resolve (type resolve)

/-- The signature of a method, of a call site or of a function pointer. -/
def method (resolve : Token → Except SignatureFault ν) : Reader (MethodSig (TypeSig ν)) :=
  methodOf (parameter resolve)

/-- The type of a field, behind its marker. -/
def field (resolve : Token → Except SignatureFault ν) : Reader (TypeSig ν) := do
  let convention ← byte
  if convention.toNat % 16 ≠ 6 then throw (.notField convention)
  parameter resolve

/-- The type of a property with the parameters of its accessors, behind its marker. A
    property has no calling convention but for the receiver. -/
def property (resolve : Token → Except SignatureFault ν) :
    Reader (MethodSig (TypeSig ν)) := do
  let convention ← byte
  if convention.toNat % 16 ≠ 8 then throw (.notProperty convention)
  let count ← compressed
  let returnType ← parameter resolve
  let parameters ← vector (parameter resolve) count
  return {
    hasThis := convention.toNat.testBit 5
    explicitThis := false
    kind := 8
    genericCount? := none
    returnType
    parameters := parameters.map fun t => ⟨false, t⟩ }

/-- The types of the local variables of a method, behind their marker. -/
def locals (resolve : Token → Except SignatureFault ν) : Reader (List (TypeSig ν)) := do
  let convention ← byte
  if convention ≠ 7 then throw (.notLocals convention)
  let count ← compressed
  vector (parameter resolve) count

/-- The type arguments of a generic method, behind their marker. -/
def instantiation (resolve : Token → Except SignatureFault ν) :
    Reader (List (TypeSig ν)) := do
  let convention ← byte
  if convention ≠ 0x0A then throw (.notInstantiation convention)
  let count ← compressed
  vector (type resolve) count

end ILDump.Reader
