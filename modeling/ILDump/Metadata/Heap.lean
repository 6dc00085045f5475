import ILDump.Text.Digits
import ILDump.Text.Utf8
import ILDump.Text.Utf16

/-!
# Heaps

Tables refer to texts, blobs and identifiers by their offset in a heap. Each heap is the
bytes of one stream. What an offset stands for may be missing or malformed; the tables
then have an empty text or blob there.
-/

namespace ILDump.Heap

/-- The length in front of a blob, and what follows it. -/
def lengthPrefix? : Bytes → Option (Nat × Bytes)
  | [] => none
  | a :: rest =>
    if a < 0x80 then some (a.toNat, rest)
    else if a < 0xC0 then
      match rest with
      | b :: rest => some ((a.toNat - 0x80) * 0x100 + b.toNat, rest)
      | _ => none
    else if a < 0xE0 then
      match rest with
      | b :: c :: d :: rest =>
        some ((((a.toNat - 0xC0) * 0x100 + b.toNat) * 0x100 + c.toNat) * 0x100 + d.toNat, rest)
      | _ => none
    else none

/-- The bytes of a text: up to the next zero byte, or up to the last byte of a heap that
    ends without one. -/
def textBytes (bytes : Bytes) : Bytes :=
  if bytes.contains 0 then bytes.takeWhile (· ≠ 0) else bytes.dropLast

/-- What stands for a text that is not well-formed. -/
def malformedText : String := "None"

/-- The text at an offset of the string heap. -/
def text (heap : Bytes) (offset : Nat) : String :=
  if offset < heap.length then
    (Utf8.decode? (textBytes (heap.drop offset))).getD malformedText
  else ""

/-- The blob at an offset of the blob heap, cut at the end of the heap. -/
def blob (heap : Bytes) (offset : Nat) : Bytes :=
  match lengthPrefix? (heap.drop offset) with
  | some (length, rest) => rest.take length
  | none => []

/-- The text of a user string: pairs of bytes, and a flag at the end if the length is
    odd. -/
def userText? (length : Nat) (bytes : Bytes) : Option String :=
  if length % 2 = 0 then some (String.ofList (Utf16.decodeLossy bytes))
  else if bytes.isEmpty then none
  else some (String.ofList (Utf16.decodeLossy bytes.dropLast))

/-- The user string at an offset of its heap. -/
def userString? (heap : Bytes) (offset : Nat) : Option String := do
  let (length, rest) ← lengthPrefix? (heap.drop offset)
  userText? length (rest.take length)

def hexText (bytes : Bytes) : String :=
  String.join (bytes.map (Digits.hexByte .lower))

/-- The usual form of a unique identifier: five groups, the first three with their bytes
    reversed. -/
def guidText (bytes : Bytes) : String :=
  String.intercalate "-" [
    hexText (bytes.slice 0 4).reverse, hexText (bytes.slice 4 2).reverse,
    hexText (bytes.slice 6 2).reverse, hexText (bytes.slice 8 2), hexText (bytes.slice 10 6)]

/-- The identifier with an index, counted from one; empty if there is none. -/
def guid (heap : Bytes) (index : Nat) : String :=
  let bytes := heap.slice ((index - 1) * 16) 16
  if index = 0 ∨ bytes.length < 16 then "" else guidText bytes

end ILDump.Heap
