/-!
# Bytes

Contents of files and of metadata blobs. Numbers in them stand with the least
significant byte first.
-/

namespace ILDump

/-- Contents of files and of metadata blobs. -/
abbrev Bytes := List UInt8

namespace Bytes

/-- The number that bytes stand for, least significant first. -/
def number : Bytes → Nat
  | [] => 0
  | b :: bs => b.toNat + 256 * number bs

/-- At most `count` bytes from a position on. -/
def slice (bs : Bytes) (start count : Nat) : Bytes :=
  (bs.drop start).take count

/-- The number in the `size` bytes from a position on. Bytes that are missing at the end
    count as zero. -/
def word (bs : Bytes) (start size : Nat) : Nat :=
  number (slice bs start size)

/-- The number in the `size` bytes from a position on, if all of them are there. -/
def word? (bs : Bytes) (start size : Nat) : Option Nat :=
  let piece := slice bs start size
  if piece.length = size then some (number piece) else none

/-- The bits of a number as a signed number of `bits` bits. -/
def signed (bits n : Nat) : Int :=
  if n < Nat.pow 2 (bits - 1) then n else (n : Int) - (Nat.pow 2 bits : Nat)

end Bytes

end ILDump
