import ILDump.Text.Utf8
import ILDump.Metadata.Token
import ILDump.Signature.Fault

/-!
# Reading a blob

A cursor holds what is left of a blob and how much of it was read. A reader moves the
cursor forward and may fail; a failure leaves the cursor where reading stopped, so its
offset tells how far the blob made sense.

The integers of a signature are compressed: the lead byte says whether one, two or
four bytes hold the number, most significant first. A signed number is rotated left by
one bit within its width before that, which brings the sign down to bit zero.
-/

namespace ILDump

/-- A place in a blob. -/
structure Cursor where
  /-- The bytes not read yet. -/
  rest : Bytes
  /-- How many bytes were read. -/
  offset : Nat
deriving DecidableEq, Repr

def Cursor.start (blob : Bytes) : Cursor :=
  ⟨blob, 0⟩

/-- Readers of one signature blob. -/
abbrev Reader (α : Type) : Type :=
  EStateM SignatureFault Cursor α

namespace Reader

variable {α : Type}

/-- The value a reader makes of a whole blob; what it leaves unread is ignored. -/
def decode (r : Reader α) (blob : Bytes) : Except SignatureFault α :=
  match r.run (Cursor.start blob) with
  | .ok a _ => .ok a
  | .error e _ => .error e

/-- Whether nothing is left. -/
def atEnd : Reader Bool :=
  fun c => .ok c.rest.isEmpty c

/-- The next byte, if there is one, without moving past it. -/
def peek? : Reader (Option UInt8) :=
  fun c => .ok c.rest.head? c

/-- The next byte without moving past it; there must be one. -/
def peek : Reader UInt8
  | ⟨[], offset⟩ => .error (.truncated offset) ⟨[], offset⟩
  | ⟨b :: rest, offset⟩ => .ok b ⟨b :: rest, offset⟩

/-- The next byte, moving past it. -/
def byte : Reader UInt8
  | ⟨[], offset⟩ => .error (.truncated offset) ⟨[], offset⟩
  | ⟨b :: rest, offset⟩ => .ok b ⟨rest, offset + 1⟩

/-- How many bytes were read so far. -/
def offset : Reader Nat :=
  fun c => .ok c.offset c

def remaining : Reader Nat :=
  fun c => .ok c.rest.length c

/-- Brings in an outcome that does not depend on the blob. -/
def lift (x : Except SignatureFault α) : Reader α :=
  fun c =>
    match x with
    | .ok a => .ok a c
    | .error e => .error e c

/-- Exactly `count` items, one after the other. -/
def vector (item : Reader α) : Nat → Reader (List α)
  | 0 => pure []
  | count + 1 => do
    let x ← item
    let xs ← vector item count
    return x :: xs

def compressed : Reader Nat := do
  let lead ← byte
  let n := lead.toNat
  if n < 0x80 then
    return n
  else if n < 0xC0 then
    let b ← byte
    return (n - 0x80) * 0x100 + b.toNat
  else if n < 0xE0 then
    let b ← byte
    let c ← byte
    let d ← byte
    return (((n - 0xC0) * 0x100 + b.toNat) * 0x100 + c.toNat) * 0x100 + d.toNat
  else
    throw (.badLeadByte lead)

/-- The number of value bits in a compressed integer of one, two or four bytes. -/
def compressedBits (size : Nat) : Nat :=
  if size = 1 then 7 else if size = 2 then 14 else 29

/-- Undoes the rotation of a signed number of `bits` bits: bit zero is the sign. -/
def unrotate (bits raw : Nat) : Int :=
  if raw % 2 = 1 then (raw / 2 : Nat) - (Nat.pow 2 (bits - 1) : Nat) else (raw / 2 : Nat)

def compressedSigned : Reader Int := do
  let before ← offset
  let raw ← compressed
  let after ← offset
  return unrotate (compressedBits (after - before)) raw

/-- The table that the two tag bits of a coded type token select. -/
def typeTable? : Nat → Option Nat
  | 0 => some TableNumber.typeDef
  | 1 => some TableNumber.typeRef
  | 2 => some TableNumber.typeSpec
  | _ => none

/-- A coded type token: a row number above two bits that select the table. -/
def typeToken : Reader Token := do
  let coded ← compressed
  match typeTable? (coded % 4) with
  | some table => return Token.ofRow table (coded / 4)
  | none => throw (.badTypeTag (coded % 4))

end Reader

end ILDump
