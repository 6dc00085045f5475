import ILDump.Text.LineEnds
import ILDump.Unicode.Blank

/-!
# Files of settings

A file of settings has a line `KEY=value` for each setting. Blanks around key and value
do not belong to them, and a value may stand between quotes of one kind. Empty lines and
lines with a number sign in front say nothing; any other line without an equals sign is
reported. A key that occurs again keeps its place and takes the later value.
-/

namespace ILDump.EnvFile

inductive Line where
  | empty
  | invalid
  | setting (key value : List Char)
deriving DecidableEq, Repr

/-- Takes the quotes off a value that starts and ends with the same kind. -/
def unquote (value : List Char) : List Char :=
  let encloses := fun (q : Char) => value.head? = some q && value.getLast? = some q
  if encloses '"' || encloses '\'' then (value.drop 1).dropLast else value

def Line.read (text : List Char) : Line :=
  match Unicode.trimWhile Unicode.isBlank text with
  | [] => .empty
  | '#' :: _ => .empty
  | line =>
    if line.contains '=' then
      let key := line.takeWhile (· ≠ '=')
      let value := (line.dropWhile (· ≠ '=')).drop 1
      let trim := Unicode.trimWhile Unicode.isBlank
      if (trim key).isEmpty then .empty else .setting (trim key) (unquote (trim value))
    else .invalid

def lines (text : String) : List Line :=
  ((LineEnds.unify text.toList).splitOn '\n').map Line.read

/-- Puts a value under a key; a key that is there keeps its place. -/
def put (settings : List (String × String)) (key value : String) : List (String × String) :=
  if settings.any fun s => s.1 = key then
    settings.map fun s => if s.1 = key then (key, value) else s
  else
    settings ++ [(key, value)]

def settings (text : String) : List (String × String) :=
  (lines text).foldl (fun found line =>
    match line with
    | .setting key value => put found (String.ofList key) (String.ofList value)
    | _ => found) []

/-- The numbers of the lines that are reported, counted from one. -/
def invalidLines (text : String) : List Nat :=
  ((lines text).mapIdx fun i line => (i + 1, line)).filterMap fun p =>
    if p.2 = .invalid then some p.1 else none

def invalidMessage (number : Nat) : String :=
  ".env line " ++ toString number ++ ": Invalid format (no '=')"

end ILDump.EnvFile
