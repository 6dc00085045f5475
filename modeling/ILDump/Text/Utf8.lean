import ILDump.Bytes

/-!
# UTF-8

Octets are read one at a time by a small machine. It holds what the current character
still needs: how many continuation octets, and in which range the next one must lie.
The ranges after the lead octets `E0`, `ED`, `F0` and `F4` keep out overlong forms,
surrogates and values above `10FFFF`. An octet that does not continue a character
ends it as ill-formed and is then read afresh, so each maximal ill-formed piece counts
once.

`decode?` refuses ill-formed input, `decodeLossy` writes U+FFFD for each piece.
-/

namespace ILDump.Utf8

/-- A character whose octets have not all been seen. -/
structure Pending where
  /-- Continuation octets still to come, at least one. -/
  missing : Nat
  /-- Least value of the next octet. -/
  low : Nat
  /-- Greatest value of the next octet. -/
  high : Nat
  /-- The bits collected so far. -/
  bits : Nat

/-- What an octet at the start of a character announces. -/
inductive Lead where
  | whole (c : Char)
  | starts (p : Pending)
  | illFormed

/-- Classifies the first octet of a character. -/
def lead (b : UInt8) : Lead :=
  let n := b.toNat
  if n < 0x80 then .whole (Char.ofNat n)
  else if n < 0xC2 then .illFormed
  else if n < 0xE0 then .starts ⟨1, 0x80, 0xBF, n - 0xC0⟩
  else if n = 0xE0 then .starts ⟨2, 0xA0, 0xBF, 0⟩
  else if n = 0xED then .starts ⟨2, 0x80, 0x9F, 0xD⟩
  else if n < 0xF0 then .starts ⟨2, 0x80, 0xBF, n - 0xE0⟩
  else if n = 0xF0 then .starts ⟨3, 0x90, 0xBF, 0⟩
  else if n < 0xF4 then .starts ⟨3, 0x80, 0xBF, n - 0xF0⟩
  else if n = 0xF4 then .starts ⟨3, 0x80, 0x8F, 4⟩
  else .illFormed

/-- Reads octets into characters, with `none` for each maximal ill-formed piece. -/
def scan : Option Pending → Bytes → List (Option Char)
  | none, [] => []
  | some _, [] => [none]
  | none, b :: bs =>
    match lead b with
    | .whole c => some c :: scan none bs
    | .starts p => scan (some p) bs
    | .illFormed => none :: scan none bs
  | some p, b :: bs =>
    if p.low ≤ b.toNat ∧ b.toNat ≤ p.high then
      let bits := p.bits * 64 + b.toNat % 64
      if p.missing ≤ 1 then some (Char.ofNat bits) :: scan none bs
      else scan (some ⟨p.missing - 1, 0x80, 0xBF, bits⟩) bs
    else
      match lead b with
      | .whole c => none :: some c :: scan none bs
      | .starts q => none :: scan (some q) bs
      | .illFormed => none :: none :: scan none bs

/-- The text of well-formed octets. -/
def decode? (bs : Bytes) : Option String :=
  ((scan none bs).mapM id).map String.ofList

/-- The text of any octets, with U+FFFD for each ill-formed piece. -/
def decodeLossy (bs : Bytes) : String :=
  String.ofList ((scan none bs).map (·.getD '\uFFFD'))

/-- The octets of a text. -/
def encode (s : String) : Bytes :=
  s.toUTF8.data.toList

end ILDump.Utf8
