import ILDump.Text.Utf8

/-!
# UTF-16, little-endian

The user strings and string constants of a module are sequences of 16-bit units, low
octet first. A unit that is half of no surrogate pair reads as U+FFFD. A leading
surrogate with fewer than two octets behind it takes these with it, as one piece; a
single octet at the end is a piece of its own.
-/

namespace ILDump.Utf16

/-- The unit made of a low and a high octet. -/
def unit (low high : UInt8) : Nat :=
  low.toNat + 256 * high.toNat

/-- The first half of a surrogate pair. -/
def isLeading (u : Nat) : Bool :=
  0xD800 ≤ u && u < 0xDC00

/-- The second half of a surrogate pair. -/
def isTrailing (u : Nat) : Bool :=
  0xDC00 ≤ u && u < 0xE000

/-- The character of a surrogate pair. -/
def pair (leading trailing : Nat) : Char :=
  Char.ofNat (0x10000 + (leading - 0xD800) * 1024 + (trailing - 0xDC00))

/-- The characters of any octets, with U+FFFD for each ill-formed piece. -/
def decodeLossy : Bytes → List Char
  | [] => []
  | [_] => ['\uFFFD']
  | [a, b] =>
    let u := unit a b
    [if isLeading u || isTrailing u then '\uFFFD' else Char.ofNat u]
  | a :: b :: c :: rest =>
    let u := unit a b
    if isLeading u then
      match rest with
      | [] => ['\uFFFD']
      | d :: rest' =>
        if isTrailing (unit c d) then pair u (unit c d) :: decodeLossy rest'
        else '\uFFFD' :: decodeLossy (c :: d :: rest')
    else if isTrailing u then '\uFFFD' :: decodeLossy (c :: rest)
    else Char.ofNat u :: decodeLossy (c :: rest)
termination_by bs => bs.length

end ILDump.Utf16
