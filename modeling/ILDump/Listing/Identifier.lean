import ILDump.Text.Quoted
import ILDump.Unicode.Alphanumeric

/-!
# Identifiers of a listing

A name stands in a listing as it is if an assembler reads it as one identifier: letters,
digits and a few marks, no digit in front, no two dots in a row, a leading dot only in
the names of constructors. Every other name is quoted. Which characters are letters and
digits is a matter of the character set, so the rules take a classification.
-/

namespace ILDump.Identifier

/-- A classification of characters. -/
structure Classes where
  isAlphanumeric : Char → Bool
  isDigit : Char → Bool

def Classes.unicode : Classes :=
  ⟨Unicode.isAlphanumeric, Unicode.isDigit⟩

/-- Marks that may stand in an identifier. -/
def isMark (c : Char) : Bool :=
  c == '_' || c == '$' || c == '@' || c == '?' || c == '\x60' || c == '.'

def hasDoubleDot : List Char → Bool
  | '.' :: '.' :: _ => true
  | _ :: cs => hasDoubleDot cs
  | [] => false

/-- Whether a name needs no quotes. -/
def isPlain (k : Classes) : List Char → Bool
  | [] => false
  | c :: cs =>
    if k.isDigit c then false
    else if c = '.' then
      c :: cs == ".ctor".toList || c :: cs == ".cctor".toList
    else if hasDoubleDot (c :: cs) then false
    else (c :: cs).all fun d => k.isAlphanumeric d || isMark d

/-- A name as an identifier. -/
def escapeWith (k : Classes) (name : String) : String :=
  if isPlain k name.toList then name else Quoted.identifier name

/-- A name with dots, quoted part by part. The empty name stays empty. -/
def escapeDottedWith (k : Classes) (name : String) : String :=
  if name = "" then name
  else
    String.intercalate "."
      ((name.toList.splitOn '.').map fun part => escapeWith k (String.ofList part))

def escape : String → String :=
  escapeWith .unicode

def escapeDotted : String → String :=
  escapeDottedWith .unicode

end ILDump.Identifier
