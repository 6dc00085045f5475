import ILDump.Text.Digits
import ILDump.Text.Utf16
import ILDump.Text.Quoted
import ILDump.Decimal.Float

/-!
# Constants

The initial value of a field or parameter is stored as an element type and raw bytes. A
value shorter than its type asks for, and a value of a type without constants, is shown
byte by byte.
-/

namespace ILDump.Constant

/-- Name and size of the integer types by element type. -/
def integerType? : Nat → Option (String × Nat)
  | 0x04 => some ("int8", 1)
  | 0x05 => some ("uint8", 1)
  | 0x06 => some ("int16", 2)
  | 0x07 => some ("uint16", 2)
  | 0x08 => some ("int32", 4)
  | 0x09 => some ("uint32", 4)
  | 0x0A => some ("int64", 8)
  | 0x0B => some ("uint64", 8)
  | _ => none

/-- The first `size` bytes as a number in parentheses behind the type's name. -/
def integerText (name : String) (size : Nat) (value : Bytes) : String :=
  name ++ "(0x" ++
    String.ofList (Digits.hexWord .upper (2 * size) (Bytes.number (value.take size))) ++ ")"

/-- Bytes in parentheses, for values that have no better form. -/
def bytesText (value : Bytes) : String :=
  "bytearray(" ++ String.intercalate " " (value.map (Digits.hexByte .upper)) ++ ")"

def text (elementType : Nat) (value : Bytes) : String :=
  match integerType? elementType with
  | some (name, size) =>
    if size ≤ value.length then integerText name size value else bytesText value
  | none =>
    match elementType, value with
    | 0x02, b :: _ => if b == 0 then "bool(false)" else "bool(true)"
    | 0x03, a :: b :: _ => integerText "char" 2 [a, b]
    | 0x0C, a :: b :: c :: d :: _ =>
      "float32(" ++ Decimal.text32 (Bytes.number [a, b, c, d]) ++ ")"
    | 0x0D, a :: b :: c :: d :: e :: f :: g :: h :: _ =>
      "float64(" ++ Decimal.text64 (Bytes.number [a, b, c, d, e, f, g, h]) ++ ")"
    | 0x0E, value => Quoted.literal (String.ofList (Utf16.decodeLossy value))
    | 0x12, _ => "nullref"
    | _, value => bytesText value

end ILDump.Constant
