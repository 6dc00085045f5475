/-!
# Patterns of names

A pattern of a name is written with `*` for any characters, `?` for any one character and
brackets for one character out of several. In brackets a dash makes a range, a range that
runs backwards holds nothing, and an exclamation mark in front takes all other
characters. A bracket that is never closed stands for itself.
-/

namespace ILDump

/-- What one place of a pattern accepts. -/
inductive Glyph where
  | exactly (c : Char)
  | anyOne
  | anyMany
  | oneOf (isNegated : Bool) (ranges : List (Char × Char))
deriving DecidableEq, Repr

namespace Glyph

/-- Whether a single character is accepted. -/
def accepts : Glyph → Char → Bool
  | exactly c, x => c = x
  | anyOne, _ => true
  | anyMany, _ => true
  | oneOf isNegated ranges, x =>
    (ranges.any fun r => decide (r.1 ≤ x) && decide (x ≤ r.2)) != isNegated

/-! ### Brackets -/

/-- The text in brackets, and what follows the closing one. A closing bracket that comes
    first belongs to the text. -/
def bracketText? (cs : List Char) : Option (List Char × List Char) :=
  let sign := cs.takeWhile (· = '!') |>.take 1
  let rest := cs.drop sign.length
  let first := rest.takeWhile (· = ']') |>.take 1
  let rest := rest.drop first.length
  match rest.dropWhile (· ≠ ']') with
  | [] => none
  | _ :: after => some (sign ++ first ++ rest.takeWhile (· ≠ ']'), after)

/-- Cuts a text at the dashes that make ranges. A dash within the first `skip` characters,
    or at the end, makes none. -/
def cutAtDashes : Nat → Nat → List Char → List (List Char)
  | 0, _, cs => [cs]
  | fuel + 1, skip, cs =>
    match (cs.drop skip).dropWhile (· ≠ '-') with
    | [] => [cs]
    | _ :: rest =>
      let piece := cs.take skip ++ (cs.drop skip).takeWhile (· ≠ '-')
      if rest.isEmpty then [piece ++ ['-']] else piece :: cutAtDashes fuel 2 rest

/-- Joins two pieces whose range runs backwards, without the ends of that range. -/
def dropBackwards : List (List Char) → List (List Char)
  | [] => []
  | piece :: rest =>
    match dropBackwards rest with
    | [] => [piece]
    | next :: others =>
      match piece.getLast?, next.head? with
      | some low, some high =>
        if high < low then (piece.dropLast ++ next.drop 1) :: others
        else piece :: next :: others
      | _, _ => piece :: next :: others

/-- Each character as a range of its own. -/
def singles (cs : List Char) : List (Char × Char) :=
  cs.map fun c => (c, c)

/-- The ranges of pieces. Two pieces are joined by a range; a dash after an empty piece
    stands for itself. -/
def rangesOf : List (List Char) → List (Char × Char)
  | [] => []
  | [piece] => singles piece
  | piece :: next :: rest =>
    match piece.getLast?, next.head? with
    | some low, some high => singles piece.dropLast ++ (low, high) :: rangesOf (next.drop 1 :: rest)
    | _, _ => ('-', '-') :: rangesOf (next :: rest)
termination_by pieces => pieces.length

/-- Reads the text in brackets. -/
def ofBracketText (cs : List Char) : Glyph :=
  let skip := if cs.head? = some '!' then 2 else 1
  match dropBackwards (cutAtDashes cs.length skip cs) with
  | ('!' :: piece) :: rest => oneOf true (rangesOf (piece :: rest))
  | pieces => oneOf false (rangesOf pieces)

/-! ### Whole names -/

/-- Reads at most `fuel` places of a pattern. -/
def readUpTo : Nat → List Char → List Glyph
  | 0, _ => []
  | _, [] => []
  | fuel + 1, c :: cs =>
    if c = '*' then anyMany :: readUpTo fuel cs
    else if c = '?' then anyOne :: readUpTo fuel cs
    else if c = '[' then
      match bracketText? cs with
      | some (text, after) => ofBracketText text :: readUpTo fuel after
      | none => exactly c :: readUpTo fuel cs
    else exactly c :: readUpTo fuel cs

def read (pattern : String) : List Glyph :=
  readUpTo pattern.length pattern.toList

/-- Whether characters match a pattern as a whole. -/
def matchAll : List Glyph → List Char → Bool
  | [], cs => cs.isEmpty
  | anyMany :: gs, [] => matchAll gs []
  | anyMany :: gs, c :: cs => matchAll gs (c :: cs) || matchAll (anyMany :: gs) cs
  | _ :: _, [] => false
  | g :: gs, c :: cs => g.accepts c && matchAll gs cs
termination_by gs cs => gs.length + cs.length

end Glyph

end ILDump
