import ILDump.Text.Utf16
import ILDump.Value

/-!
# Reading values

Reads the interchange form of values back. Keys of an object keep the order of their
first occurrence and take their last value. Numbers with a fraction or an exponent are
floating-point numbers, all others are whole.

Each reader gives the value and what follows it.
-/

namespace ILDump.Value

/-- The text without blanks in front. -/
def skipBlanks (cs : List Char) : List Char :=
  cs.dropWhile fun c => c = ' ' || c = '\t' || c = '\n' || c = '\r'

/-- The number written by hexadecimal digits. -/
def hexNumber? (cs : List Char) : Option Nat :=
  cs.foldl (fun n? c => do return (← n?) * 16 + (← Digits.digitValue? c)) (some 0)

/-- A unit of sixteen bits written with four digits. -/
def readUnit? (cs : List Char) : Option (Nat × List Char) :=
  if 4 ≤ cs.length then (hexNumber? (cs.take 4)).map fun u => (u, cs.drop 4) else none

/-- The character of an escape with a single letter. -/
def letterEscape (c : Char) : Char :=
  match c with
  | 'n' => '\n'
  | 't' => '\t'
  | 'r' => '\r'
  | 'b' => '\x08'
  | 'f' => '\x0c'
  | c => c

/-- The character that starts with a unit. Half of a pair without the other half reads as
    U+FFFD. -/
def readEscaped (u : Nat) (cs : List Char) : Char × List Char :=
  if Utf16.isLeading u then
    match cs with
    | '\\' :: 'u' :: after =>
      match readUnit? after with
      | some (v, after) =>
        if Utf16.isTrailing v then (Utf16.pair u v, after) else ('\uFFFD', cs)
      | none => ('\uFFFD', cs)
    | _ => ('\uFFFD', cs)
  else (if Utf16.isTrailing u then '\uFFFD' else Char.ofNat u, cs)

/-- The rest of a text up to its closing quote. -/
def readText? : Nat → List Char → List Char → Option (String × List Char)
  | 0, _, _ => none
  | _, _, [] => none
  | _, done, '"' :: cs => some (String.ofList done.reverse, cs)
  | fuel + 1, done, '\\' :: 'u' :: cs => do
    let (u, cs) ← readUnit? cs
    let (c, cs) := readEscaped u cs
    readText? fuel (c :: done) cs
  | fuel + 1, done, '\\' :: c :: cs => readText? fuel (letterEscape c :: done) cs
  | fuel + 1, done, c :: cs => readText? fuel (c :: done) cs

def decimalNumber (cs : List Char) : Nat :=
  cs.foldl (fun n c => n * 10 + (c.toNat - 48)) 0

/-- A number from its sign, digits, digits of the fraction and exponent. -/
def floatOf (isNegative : Bool) (whole fraction : List Char) (exponent : Int) : Value :=
  let power := exponent - fraction.length
  let x := Float.ofScientific (decimalNumber (whole ++ fraction)) (power < 0) power.natAbs
  .float (if isNegative then -x else x).toBits.toNat

def exponentOf : List Char → Int
  | _ :: '-' :: cs => -(decimalNumber cs : Int)
  | _ :: '+' :: cs => decimalNumber cs
  | _ :: cs => decimalNumber cs
  | [] => 0

/-- A number from all its characters. -/
def numberOf (cs : List Char) : Value :=
  let isNegative := cs.head? = some '-'
  let cs := if isNegative then cs.drop 1 else cs
  let whole := cs.takeWhile Char.isDigit
  match cs.dropWhile Char.isDigit with
  | [] => .integer (if isNegative then -(decimalNumber whole : Int) else decimalNumber whole)
  | '.' :: cs =>
    floatOf isNegative whole (cs.takeWhile Char.isDigit) (exponentOf (cs.dropWhile Char.isDigit))
  | cs => floatOf isNegative whole [] (exponentOf cs)

/-- Whether a character may occur in a number. -/
def isNumeric (c : Char) : Bool :=
  c.isDigit || c = '-' || c = '+' || c = '.' || c = 'e' || c = 'E'

/-- Puts a value under a key. -/
def putPair (pairs : List (String × Value)) (key : String) (v : Value) : List (String × Value) :=
  if pairs.any fun p => p.1 = key then pairs.map fun p => if p.1 = key then (key, v) else p
  else pairs ++ [(key, v)]

mutual

def readValue? : Nat → List Char → Option (Value × List Char)
  | 0, _ => none
  | fuel + 1, cs =>
    match skipBlanks cs with
    | '"' :: cs => (readText? (cs.length + 1) [] cs).map fun r => (.text r.1, r.2)
    | '[' :: cs =>
      match skipBlanks cs with
      | ']' :: cs => some (.list [], cs)
      | cs => readItems? fuel [] cs
    | '\x7b' :: cs =>
      match skipBlanks cs with
      | '\x7d' :: cs => some (.object [], cs)
      | cs => readPairs? fuel [] cs
    | 't' :: 'r' :: 'u' :: 'e' :: cs => some (.bool true, cs)
    | 'f' :: 'a' :: 'l' :: 's' :: 'e' :: cs => some (.bool false, cs)
    | 'n' :: 'u' :: 'l' :: 'l' :: cs => some (.null, cs)
    | cs =>
      let number := cs.takeWhile isNumeric
      if number.isEmpty then none else some (numberOf number, cs.dropWhile isNumeric)

def readItems? : Nat → List Value → List Char → Option (Value × List Char)
  | 0, _, _ => none
  | fuel + 1, done, cs => do
    let (v, cs) ← readValue? fuel cs
    match skipBlanks cs with
    | ',' :: cs => readItems? fuel (v :: done) cs
    | ']' :: cs => some (.list (v :: done).reverse, cs)
    | _ => none

def readPairs? : Nat → List (String × Value) → List Char → Option (Value × List Char)
  | 0, _, _ => none
  | fuel + 1, done, cs =>
    match skipBlanks cs with
    | '"' :: cs => do
      let (key, cs) ← readText? (cs.length + 1) [] cs
      match skipBlanks cs with
      | ':' :: cs =>
        let (v, cs) ← readValue? fuel cs
        let done := putPair done key v
        match skipBlanks cs with
        | ',' :: cs => readPairs? fuel done cs
        | '\x7d' :: cs => some (.object done, cs)
        | _ => none
      | _ => none
    | _ => none

end

/-- Reads a value that has only blanks around it. -/
def ofJson? (s : String) : Option Value := do
  let (v, rest) ← readValue? (s.length + 1) s.toList
  if (skipBlanks rest).isEmpty then some v else none

end ILDump.Value
