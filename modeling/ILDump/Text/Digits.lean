/-!
# Numerals

Hexadecimal numerals in the two forms a listing needs: a fixed number of digits, for
a word of known size, and at least a given number of digits, for labels and tokens
that may outgrow their field.
-/

namespace ILDump.Digits

/-- Which letters stand for the digits from ten on. -/
inductive LetterCase where
  | lower
  | upper
deriving DecidableEq, Repr

/-- The digit of value `d` in base sixteen; a value from sixteen on has none and reads
    as `?`. -/
def digit (letters : LetterCase) (d : Nat) : Char :=
  let digits : List Char :=
    match letters with
    | .lower => ['0', '1', '2', '3', '4', '5', '6', '7', '8', '9', 'a', 'b', 'c', 'd', 'e', 'f']
    | .upper => ['0', '1', '2', '3', '4', '5', '6', '7', '8', '9', 'A', 'B', 'C', 'D', 'E', 'F']
  digits.getD d '?'

/-- The value of a hexadecimal digit of either case. -/
def digitValue? (c : Char) : Option Nat :=
  if '0' ≤ c ∧ c ≤ '9' then some (c.toNat - '0'.toNat)
  else if 'a' ≤ c ∧ c ≤ 'f' then some (c.toNat - 'a'.toNat + 10)
  else if 'A' ≤ c ∧ c ≤ 'F' then some (c.toNat - 'A'.toNat + 10)
  else none

/-- The last `width` hexadecimal digits of `n`, most significant first. -/
def hexWord (letters : LetterCase) : Nat → Nat → List Char
  | 0, _ => []
  | width + 1, n => hexWord letters width (n / 16) ++ [digit letters (n % 16)]

/-- All hexadecimal digits of `n`, without leading zeros; zero is one digit. -/
def hexDigits (letters : LetterCase) (n : Nat) : List Char :=
  if n < 16 then [digit letters n]
  else hexDigits letters (n / 16) ++ [digit letters (n % 16)]
termination_by n
decreasing_by omega

/-- The hexadecimal numeral of `n` filled up with zeros to at least `width` digits. -/
def hex (letters : LetterCase) (width n : Nat) : String :=
  String.ofList ((hexDigits letters n).leftpad width '0')

/-- `hex` for an integer. The sign counts towards the width, so minus three in a field
    of four is `-003`. -/
def hexInt (letters : LetterCase) (width : Nat) : Int → String
  | .ofNat n => hex letters width n
  | .negSucc n => "-" ++ hex letters (width - 1) (n + 1)

/-- Exactly two digits, the form of one byte. -/
def hexByte (letters : LetterCase) (b : UInt8) : String :=
  String.ofList (hexWord letters 2 b.toNat)

/-- Decimal digits filled up with zeros to at least `width`. -/
def decimal (width n : Nat) : String :=
  String.ofList ((toString n).toList.leftpad width '0')

theorem length_hexWord (letters : LetterCase) (width n : Nat) :
    (hexWord letters width n).length = width := by
  induction width generalizing n with
  | zero => rfl
  | succ width ih => simp [hexWord, ih]

end ILDump.Digits
