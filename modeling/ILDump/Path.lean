/-!
# Paths

A path is an anchor and components. Writing a path down and reading it back loses
doubled separators and `.` components and keeps `..`. Exactly two separators in front
are an anchor of their own.

`normalize` resolves `..` by the text alone, `absolute` does so from a working
directory, and `relativeTo` tells how one absolute path is reached from another.
-/

namespace ILDump

/-- What a path starts from. -/
inductive Anchor where
  | relative
  | root
  | doubleRoot
deriving DecidableEq, Repr

/-- The separators an anchor is written with. -/
def Anchor.text : Anchor → String
  | relative => ""
  | root => "/"
  | doubleRoot => "//"

structure Path where
  anchor : Anchor
  parts : List String
deriving DecidableEq, Repr

namespace Path

/-- The component for the directory above. -/
def up : String := ".."

def anchorOf : List Char → Anchor
  | '/' :: '/' :: '/' :: _ => .root
  | '/' :: '/' :: _ => .doubleRoot
  | '/' :: _ => .root
  | _ => .relative

def partsOf (cs : List Char) : List String :=
  ((cs.splitOn '/').map String.ofList).filter fun part => part ≠ "" && part ≠ "."

def ofString (s : String) : Path :=
  ⟨anchorOf s.toList, partsOf s.toList⟩

/-- Writes a path; the empty path is a single dot. -/
def text (p : Path) : String :=
  if p.anchor = .relative ∧ p.parts = [] then "."
  else p.anchor.text ++ String.intercalate "/" p.parts

def isAbsolute (p : Path) : Bool :=
  p.anchor ≠ .relative

def name (p : Path) : String :=
  p.parts.getLast?.getD ""

def parent (p : Path) : Path :=
  ⟨p.anchor, p.parts.dropLast⟩

/-- A path as seen from another; an absolute path stays what it is. -/
def join (p q : Path) : Path :=
  if q.isAbsolute then q else ⟨p.anchor, p.parts ++ q.parts⟩

/-- A path inside another, given as text. -/
def child (p : Path) (s : String) : Path :=
  p.join (ofString s)

/-- The components as they count for comparison, the anchor first. -/
def comparisonKey (p : Path) : List String :=
  if p.isAbsolute then p.anchor.text :: p.parts else p.parts

/-- Whether texts may stand before others, compared one by one. -/
def leTexts : List String → List String → Bool
  | [], _ => true
  | _ :: _, [] => false
  | x :: xs, y :: ys => decide (x < y) || (x == y && leTexts xs ys)

/-- Whether a path may stand before another, component by component. -/
def le (p q : Path) : Bool :=
  leTexts p.comparisonKey q.comparisonKey

/-- Adds one component to components that are already resolved, the last one first. At a
    root there is nothing above. -/
def resolveStep (absolute : Bool) (done : List String) (part : String) : List String :=
  if part ≠ up then part :: done
  else
    match done with
    | [] => if absolute then [] else [up]
    | last :: before => if last = up then up :: done else before

/-- The components with every `..` resolved against the one before it. -/
def resolveParts (absolute : Bool) (parts : List String) : List String :=
  (parts.foldl (resolveStep absolute) []).reverse

/-- A path with every `..` resolved by the text alone. -/
def normalize (p : Path) : Path :=
  ⟨p.anchor, resolveParts p.isAbsolute p.parts⟩

/-- A path from the root, seen from a working directory. -/
def absolute (p cwd : Path) : Path :=
  (cwd.join p).normalize

/-- How many components two lists have in common at the front. -/
def commonLength : List String → List String → Nat
  | x :: xs, y :: ys => if x = y then commonLength xs ys + 1 else 0
  | _, _ => 0

/-- The way from one absolute path to another. -/
def relativeTo (p start : Path) : Path :=
  let shared := commonLength start.parts p.parts
  ⟨.relative, List.replicate (start.parts.length - shared) up ++ p.parts.drop shared⟩

end Path

end ILDump
