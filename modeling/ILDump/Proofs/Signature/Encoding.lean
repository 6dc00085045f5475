import Mathlib.Algebra.Group.Nat.Defs
import ILDump.Signature.Grammar

/-!
# Writing signatures

The other side of the signature grammar: the bytes that stand for an integer, a type or a
method signature. A number takes the fewest of one, two or four bytes; a signed number is
brought into the two's complement of its width and rotated left by one bit there.

Types are over tokens, as a blob holds them. Not every value of `TypeSig` has a signature:
numbers have 29 bits, a type token names one of three tables, and custom modifiers stand
in one place only, right before an unmodified type. `Encodable` says which types remain.
-/

namespace ILDump

namespace Token

/-- Whether a token can stand where a type is named. -/
def IsTypeToken (t : Token) : Prop :=
  t.table = TableNumber.typeDef ∨ t.table = TableNumber.typeRef ∨
    t.table = TableNumber.typeSpec

instance (t : Token) : Decidable t.IsTypeToken := by unfold IsTypeToken; infer_instance

/-- The two bits that select the table of a type token. -/
def typeTag (t : Token) : Nat :=
  if t.table = TableNumber.typeDef then 0 else if t.table = TableNumber.typeRef then 1 else 2

end Token

/-! ### Types with other names -/

namespace TypeSig

variable {ν ν' : Type}

def mapModifier (f : ν → ν') (m : Modifier ν) : Modifier ν' :=
  ⟨m.required, f m.name⟩

mutual

/-- A type with a function applied to all names in it. -/
def mapNames (f : ν → ν') : TypeSig ν → TypeSig ν'
  | primitive p => .primitive p
  | named kind name => .named kind (f name)
  | pointer ms t => .pointer (ms.map (mapModifier f)) (mapNames f t)
  | byRef t => .byRef (mapNames f t)
  | vector ms t => .vector (ms.map (mapModifier f)) (mapNames f t)
  | array t rank sizes lowerBounds => .array (mapNames f t) rank sizes lowerBounds
  | typeVariable i => .typeVariable i
  | methodVariable i => .methodVariable i
  | generic kind name arguments => .generic kind (f name) (mapAll f arguments)
  | function s => .function (mapSignature f s)
  | modified ms t => .modified (ms.map (mapModifier f)) (mapNames f t)
  | pinned t => .pinned (mapNames f t)

def mapAll (f : ν → ν') : List (TypeSig ν) → List (TypeSig ν')
  | [] => []
  | t :: ts => mapNames f t :: mapAll f ts

def mapSignature (f : ν → ν') : MethodSig (TypeSig ν) → MethodSig (TypeSig ν')
  | ⟨hasThis, explicitThis, kind, genericCount?, returnType, parameters⟩ =>
    ⟨hasThis, explicitThis, kind, genericCount?, mapNames f returnType,
      mapParameters f parameters⟩

def mapParameters (f : ν → ν') : List (Parameter (TypeSig ν)) → List (Parameter (TypeSig ν'))
  | [] => []
  | ⟨afterSentinel, t⟩ :: ps => ⟨afterSentinel, mapNames f t⟩ :: mapParameters f ps

end

/-- Whether a type has no custom modifiers in front. -/
def IsUnmodified : TypeSig ν → Prop
  | modified _ _ => False
  | _ => True

end TypeSig

namespace Encoding

/-! ### Compressed integers -/

/-- The first number that a compressed integer cannot hold. -/
def limit : Nat := 0x20000000

/-- A number in one, two or four bytes, the lead byte tagged with their count. -/
def inWidth : Nat → Nat → Bytes
  | 1, n => [UInt8.ofNat n]
  | 2, n => [UInt8.ofNat (0x80 + n / 0x100), UInt8.ofNat n]
  | _, n => [UInt8.ofNat (0xC0 + n / 0x1000000), UInt8.ofNat (n / 0x10000),
      UInt8.ofNat (n / 0x100), UInt8.ofNat n]

def width (n : Nat) : Nat :=
  if n < 0x80 then 1 else if n < 0x4000 then 2 else 4

/-- An unsigned number. -/
def unsigned (n : Nat) : Bytes :=
  inWidth (width n) n

def signedWidth (v : Int) : Nat :=
  if -0x40 ≤ v ∧ v < 0x40 then 1 else if -0x2000 ≤ v ∧ v < 0x2000 then 2 else 4

/-- The two's complement of a number in `bits` bits, rotated left by one. -/
def rotate (bits : Nat) (v : Int) : Nat :=
  let complement := (v % (2 ^ bits : Nat)).toNat
  complement * 2 % 2 ^ bits + complement / 2 ^ (bits - 1)

def signed (v : Int) : Bytes :=
  inWidth (signedWidth v) (rotate (Reader.compressedBits (signedWidth v)) v)

/-- A list behind its length. -/
def counted {α : Type} (item : α → Bytes) (xs : List α) : Bytes :=
  unsigned xs.length ++ xs.flatMap item

/-! ### Types and method signatures -/

/-- A type token: its row above the tag of its table. -/
def token (t : Token) : Bytes :=
  unsigned (t.row * 4 + t.typeTag)

def modifier (m : Modifier Token) : Bytes :=
  (if m.required then Reader.requiredModifierByte else Reader.optionalModifierByte) ::
    token m.name

def modifiers (ms : List (Modifier Token)) : Bytes :=
  ms.flatMap modifier

def kind : NamedKind → UInt8
  | .reference => 0x12
  | .valueType => 0x11

/-- The first byte of a method signature: the kind below one bit each for generic
    parameters, a receiver and an explicit receiver. -/
def convention {τ : Type} (s : MethodSig τ) : UInt8 :=
  UInt8.ofNat (s.kind + (if s.genericCount?.isSome then 0x10 else 0) +
    (if s.hasThis then 0x20 else 0) + (if s.explicitThis then 0x40 else 0))

/-- The sentinel, if it stands before a parameter. -/
def sentinel (afterSentinel : Bool) : Bytes :=
  if afterSentinel then [Reader.sentinelByte] else []

mutual

def type : TypeSig Token → Bytes
  | .primitive p => [p.code]
  | .named k name => kind k :: token name
  | .pointer ms t => 0x0F :: (modifiers ms ++ type t)
  | .byRef t => 0x10 :: type t
  | .vector ms t => 0x1D :: (modifiers ms ++ type t)
  | .array t rank sizes lowerBounds =>
    0x14 :: (type t ++ (unsigned rank ++ (counted unsigned sizes ++ counted signed lowerBounds)))
  | .typeVariable i => 0x13 :: unsigned i
  | .methodVariable i => 0x1E :: unsigned i
  | .generic k name arguments =>
    0x15 :: kind k :: (token name ++ (unsigned arguments.length ++ types arguments))
  | .function s => 0x1B :: method s
  | .modified ms t => modifiers ms ++ type t
  | .pinned t => 0x45 :: type t

def types : List (TypeSig Token) → Bytes
  | [] => []
  | t :: ts => type t ++ types ts

def method : MethodSig (TypeSig Token) → Bytes
  | ⟨hasThis, explicitThis, kind, genericCount?, returnType, ps⟩ =>
    convention (⟨hasThis, explicitThis, kind, genericCount?, returnType, ps⟩ : MethodSig _) ::
      (genericCount?.elim [] unsigned ++
        (unsigned ps.length ++ (type returnType ++ parameters ps)))

def parameters : List (Parameter (TypeSig Token)) → Bytes
  | [] => []
  | ⟨afterSentinel, t⟩ :: ps => (sentinel afterSentinel ++ type t) ++ parameters ps

end

end Encoding

/-! ### Types that have a signature -/

namespace TypeSig

open Encoding (limit)

def EncodableModifiers (ms : List (Modifier Token)) : Prop :=
  ∀ m ∈ ms, m.name.IsTypeToken

mutual

/-- Whether a type has a signature. -/
def Encodable : TypeSig Token → Prop
  | primitive _ => True
  | named _ name => name.IsTypeToken
  | pointer ms t => EncodableModifiers ms ∧ t.IsUnmodified ∧ Encodable t
  | byRef t => Encodable t
  | vector ms t => EncodableModifiers ms ∧ t.IsUnmodified ∧ Encodable t
  | array t rank sizes lowerBounds =>
    Encodable t ∧ rank < limit ∧
      (sizes.length < limit ∧ ∀ n ∈ sizes, n < limit) ∧
      (lowerBounds.length < limit ∧ ∀ v ∈ lowerBounds, -0x10000000 ≤ v ∧ v < 0x10000000)
  | typeVariable i => i < limit
  | methodVariable i => i < limit
  | generic _ name arguments =>
    name.IsTypeToken ∧ arguments.length < limit ∧ EncodableAll arguments
  | function s => EncodableSignature s
  | modified ms t => ms ≠ [] ∧ EncodableModifiers ms ∧ t.IsUnmodified ∧ Encodable t
  | pinned t => Encodable t

def EncodableAll : List (TypeSig Token) → Prop
  | [] => True
  | t :: ts => Encodable t ∧ EncodableAll ts

def EncodableSignature : MethodSig (TypeSig Token) → Prop
  | ⟨_, _, kind, genericCount?, returnType, parameters⟩ =>
    kind < 16 ∧ (∀ n ∈ genericCount?, n < limit) ∧ parameters.length < limit ∧
      Encodable returnType ∧ EncodableParameters parameters

def EncodableParameters : List (Parameter (TypeSig Token)) → Prop
  | [] => True
  | ⟨_, t⟩ :: ps => Encodable t ∧ EncodableParameters ps

end

end TypeSig

end ILDump
