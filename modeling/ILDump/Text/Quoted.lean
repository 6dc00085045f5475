import ILDump.Text.Digits
import ILDump.Unicode.Printable

/-!
# Quoted texts

A text goes between quotes by writing a backslash and a letter for each character that
must not stand there as it is. `escape` does this for any choice of letters, given as a
partial map from characters to letters; `unescape` undoes it, and `unescape_escape` says
that nothing is lost when the map has a left inverse and covers the backslash.

Three choices are used: string literals of a listing, quoted identifiers of a listing,
and the form in which messages show a text.
-/

namespace ILDump.Quoted

/-- Writes a backslash and its letter for each character that has one. -/
def escape (letter? : Char → Option Char) : List Char → List Char
  | [] => []
  | c :: cs =>
    match letter? c with
    | some l => '\\' :: l :: escape letter? cs
    | none => c :: escape letter? cs

/-- Reads escaped text from left to right; a backslash needs a letter behind it that
    stands for a character. -/
def unescape (char? : Char → Option Char) : List Char → Option (List Char)
  | [] => some []
  | '\\' :: l :: cs => do
    let c ← char? l
    let rest ← unescape char? cs
    return c :: rest
  | c :: cs =>
    if c = '\\' then none
    else (unescape char? cs).map (c :: ·)

theorem unescape_escape {letter? char? : Char → Option Char}
    (hinv : ∀ c l, letter? c = some l → char? l = some c)
    (hback : letter? '\\' ≠ none) (cs : List Char) :
    unescape char? (escape letter? cs) = some cs := by
  induction cs with
  | nil => rfl
  | cons c cs ih =>
    cases h : letter? c with
    | some l => simp [escape, h, unescape, hinv c l h, ih]
    | none =>
      have hc : c ≠ '\\' := fun e => hback (e ▸ h)
      simp only [escape, h]
      rw [unescape.eq_3]
      · simp [hc, ih]
      · intro l cs' e
        exact absurd e hc

/-- Letters of a string literal. -/
def literalLetter? : Char → Option Char
  | '\\' => some '\\'
  | '"' => some '"'
  | '\n' => some 'n'
  | '\r' => some 'r'
  | '\t' => some 't'
  | _ => none

/-- The character that a letter of a string literal stands for. -/
def literalChar? : Char → Option Char
  | '\\' => some '\\'
  | '"' => some '"'
  | 'n' => some '\n'
  | 'r' => some '\r'
  | 't' => some '\t'
  | _ => none

/-- A string literal. -/
def literal (s : String) : String :=
  "\"" ++ String.ofList (escape literalLetter? s.toList) ++ "\""

/-- Letters of a quoted identifier. -/
def identifierLetter? : Char → Option Char
  | '\\' => some '\\'
  | '\'' => some '\''
  | _ => none

/-- An identifier between apostrophes. -/
def identifier (s : String) : String :=
  "'" ++ String.ofList (escape identifierLetter? s.toList) ++ "'"

/-- One character of a text shown in a message: quotes, backslashes and line breaks by
    letter, other characters that cannot be shown by number. -/
def displayChar (quote c : Char) : List Char :=
  if c = quote then ['\\', c]
  else if c = '\\' then ['\\', '\\']
  else if c = '\n' then ['\\', 'n']
  else if c = '\r' then ['\\', 'r']
  else if c = '\t' then ['\\', 't']
  else if Unicode.isPrintable c then [c]
  else if c.toNat < 0x100 then '\\' :: 'x' :: Digits.hexWord .lower 2 c.toNat
  else if c.toNat < 0x10000 then '\\' :: 'u' :: Digits.hexWord .lower 4 c.toNat
  else '\\' :: 'U' :: Digits.hexWord .lower 8 c.toNat

/-- A text as messages show it: between apostrophes, or between double quotes if it has
    apostrophes and no double quotes. -/
def display (s : String) : String :=
  let cs := s.toList
  let quote := if cs.contains '\'' && !cs.contains '"' then '"' else '\''
  String.ofList (quote :: cs.flatMap (displayChar quote) ++ [quote])

end ILDump.Quoted
