import ILDump.Text.Digits
import ILDump.Text.Utf8

/-!
# Rows of bytes

Keys and attribute values are listed as rows of hexadecimal bytes, each byte with a
blank behind it.
-/

namespace ILDump.ByteRows

/-- Bytes in hexadecimal, each with a blank behind it. -/
def row (bytes : Bytes) : String :=
  String.join (bytes.map fun b => Digits.hexByte .upper b ++ " ")

/-- Cuts a list into pieces of `size` elements, the last one possibly shorter; a size of
    zero counts as one. -/
def pieces {α : Type} (size : Nat) (xs : List α) : List (List α) :=
  if xs.isEmpty then []
  else xs.take (max size 1) :: pieces size (xs.drop (max size 1))
termination_by xs.length
decreasing_by
  rename_i h
  cases xs with
  | nil => simp at h
  | cons x xs =>
    have := Nat.le_max_right size 1
    rw [List.length_drop, List.length_cons]
    omega

/-- Rows of `perLine` bytes. No bytes make one empty row. -/
def rows (perLine : Nat) (bytes : Bytes) : List String :=
  if bytes.isEmpty then [""] else (pieces perLine bytes).map row

/-- Rows of a width that may be any number. Bytes cannot be cut into rows of no width, and
    a width below zero leaves no rows. -/
def rowsOfWidth? (width : Int) (bytes : Bytes) : Option (List String) :=
  if bytes.isEmpty ∨ 0 < width then some (rows width.toNat bytes)
  else if width = 0 then none
  else some []

def noWidthMessage : String := "range() arg 3 must not be zero"

end ILDump.ByteRows
