import ILDump.Signature.Grammar

/-!
# Reading with questions

Whoever finds the names of tokens may remember some of them, so what is remembered changes
in the middle of a blob, with every name that is asked for. An asking reader carries along
the state of the one who answers. A fault keeps that state as it was then: names that were
found before it stay remembered.

The productions are those of the grammar, with questions in the places of the names.
-/

namespace ILDump

/-- Work that answers questions from a state. -/
abbrev Answering (σ α : Type) : Type :=
  EStateM SignatureFault σ α

/-- Readers of one signature blob that ask for names. -/
abbrev AskingReader (σ α : Type) : Type :=
  EStateM SignatureFault (σ × Cursor) α

namespace AskingReader

variable {σ ν τ α : Type}

/-- Reads on without asking. -/
def plain (r : Reader α) : AskingReader σ α := fun s =>
  match r s.2 with
  | .ok a c => .ok a (s.1, c)
  | .error e c => .error e (s.1, c)

/-- Asks without reading on. -/
def ask (question : Answering σ α) : AskingReader σ α := fun s =>
  match question s.1 with
  | .ok a answering => .ok a (answering, s.2)
  | .error e answering => .error e (answering, s.2)

/-- The value an asking reader makes of a whole blob; what it leaves unread is ignored. -/
def decode (r : AskingReader σ α) (blob : Bytes) : Answering σ α := fun answering =>
  match r (answering, Cursor.start blob) with
  | .ok a s => .ok a s.1
  | .error e s => .error e s.1

/-- Exactly `count` items, one after the other. -/
def vector (item : AskingReader σ α) : Nat → AskingReader σ (List α)
  | 0 => pure []
  | count + 1 => do
    let x ← item
    let xs ← vector item count
    return x :: xs

def typeName (resolve : Token → Answering σ ν) : AskingReader σ ν := do
  let token ← plain Reader.typeToken
  ask (resolve token)

def modifier (resolve : Token → Answering σ ν) : AskingReader σ (Modifier ν) := do
  let b ← plain Reader.byte
  let name ← typeName resolve
  return ⟨b == Reader.requiredModifierByte, name⟩

/-- At most `bound` custom modifiers in a row. -/
def modifiersWithin (resolve : Token → Answering σ ν) : Nat → AskingReader σ (List (Modifier ν))
  | 0 => pure []
  | bound + 1 => do
    match ← plain Reader.peek? with
    | none => return []
    | some b =>
      if Reader.isModifierByte b then
        let m ← modifier resolve
        let ms ← modifiersWithin resolve bound
        return m :: ms
      else
        return []

/-- All custom modifiers in a row. -/
def modifiers (resolve : Token → Answering σ ν) : AskingReader σ (List (Modifier ν)) := do
  let bound ← plain Reader.remaining
  modifiersWithin resolve bound

/-- A type with the custom modifiers before it. -/
def parameterOf (resolve : Token → Answering σ ν) (item : AskingReader σ (TypeSig ν)) :
    AskingReader σ (TypeSig ν) := do
  let ms ← modifiers resolve
  let t ← item
  return Reader.modify ms t

def methodParameter (parameter : AskingReader σ τ) : AskingReader σ (Parameter τ) := do
  let afterSentinel ← plain Reader.sentinel
  let type ← parameter
  return ⟨afterSentinel, type⟩

def methodOf (parameter : AskingReader σ τ) : AskingReader σ (MethodSig τ) := do
  let convention ← plain Reader.byte
  let genericCount? ←
    if convention.toNat.testBit 4 then some <$> plain Reader.compressed else pure none
  let count ← plain Reader.compressed
  let returnType ← parameter
  let parameters ← vector (methodParameter parameter) count
  return {
    hasThis := convention.toNat.testBit 5
    explicitThis := convention.toNat.testBit 6
    kind := convention.toNat % 16
    genericCount?
    returnType
    parameters }

/-- What follows the element byte of a type other than a custom modifier. -/
def typeAfter (resolve : Token → Answering σ ν) (item : AskingReader σ (TypeSig ν))
    (element : UInt8) : AskingReader σ (TypeSig ν) := do
  match Primitive.ofCode? element with
  | some p => return .primitive p
  | none =>
    if element == 0x12 then
      return .named .reference (← typeName resolve)
    else if element == 0x11 then
      return .named .valueType (← typeName resolve)
    else if element == 0x0F then
      let ms ← modifiers resolve
      return .pointer ms (← item)
    else if element == 0x10 then
      return .byRef (← item)
    else if element == 0x1D then
      let ms ← modifiers resolve
      return .vector ms (← item)
    else if element == 0x14 then
      let t ← item
      let rank ← plain Reader.compressed
      let sizeCount ← plain Reader.compressed
      let sizes ← plain (Reader.vector Reader.compressed sizeCount)
      let boundCount ← plain Reader.compressed
      let lowerBounds ← plain (Reader.vector Reader.compressedSigned boundCount)
      return .array t rank sizes lowerBounds
    else if element == 0x13 then
      return .typeVariable (← plain Reader.compressed)
    else if element == 0x1E then
      return .methodVariable (← plain Reader.compressed)
    else if element == 0x15 then
      let kind ← plain Reader.genericKind
      let name ← typeName resolve
      let count ← plain Reader.compressed
      return .generic kind name (← vector item count)
    else if element == 0x1B then
      return .function (← methodOf (parameterOf resolve item))
    else if element == 0x45 then
      return .pinned (← item)
    else
      throw (.unknownElement element ((← plain Reader.offset) - 1))

/-- One type, with `item` for the types inside it. -/
def typeOf (resolve : Token → Answering σ ν) (item : AskingReader σ (TypeSig ν)) :
    AskingReader σ (TypeSig ν) := do
  let next ← plain Reader.peek?
  if next.any Reader.isModifierByte then
    let ms ← modifiers resolve
    return .modified ms (← item)
  else
    let element ← plain Reader.byte
    typeAfter resolve item element

/-- A type nested less than `bound` deep. -/
def typeWithin (resolve : Token → Answering σ ν) : Nat → AskingReader σ (TypeSig ν)
  | 0 => do throw (.truncated (← plain Reader.offset))
  | bound + 1 => typeOf resolve (typeWithin resolve bound)

def type (resolve : Token → Answering σ ν) : AskingReader σ (TypeSig ν) := do
  let left ← plain Reader.remaining
  typeWithin resolve (left + 1)

def parameter (resolve : Token → Answering σ ν) : AskingReader σ (TypeSig ν) :=
  parameterOf resolve (type resolve)

def method (resolve : Token → Answering σ ν) : AskingReader σ (MethodSig (TypeSig ν)) :=
  methodOf (parameter resolve)

def field (resolve : Token → Answering σ ν) : AskingReader σ (TypeSig ν) := do
  let convention ← plain Reader.byte
  if convention.toNat % 16 ≠ 6 then throw (.notField convention)
  parameter resolve

def property (resolve : Token → Answering σ ν) :
    AskingReader σ (MethodSig (TypeSig ν)) := do
  let convention ← plain Reader.byte
  if convention.toNat % 16 ≠ 8 then throw (.notProperty convention)
  let count ← plain Reader.compressed
  let returnType ← parameter resolve
  let parameters ← vector (parameter resolve) count
  return {
    hasThis := convention.toNat.testBit 5
    explicitThis := false
    kind := 8
    genericCount? := none
    returnType
    parameters := parameters.map fun t => ⟨false, t⟩ }

def locals (resolve : Token → Answering σ ν) : AskingReader σ (List (TypeSig ν)) := do
  let convention ← plain Reader.byte
  if convention ≠ 7 then throw (.notLocals convention)
  let count ← plain Reader.compressed
  vector (parameter resolve) count

def instantiation (resolve : Token → Answering σ ν) :
    AskingReader σ (List (TypeSig ν)) := do
  let convention ← plain Reader.byte
  if convention ≠ 0x0A then throw (.notInstantiation convention)
  let count ← plain Reader.compressed
  vector (type resolve) count

end AskingReader

end ILDump
