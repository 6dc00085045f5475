import ILDump.Path
import ILDump.Search.Glyph

/-!
# Search patterns

A search pattern is a relative path whose components may be patterns of names. The
component `**` stands for any number of directories; it is a component of its own.
-/

namespace ILDump

inductive PatternFault where
  | startsAtRoot
  | starsInName
deriving DecidableEq, Repr

namespace PatternFault

def message : PatternFault → String
  | startsAtRoot => "Non-relative patterns are unsupported"
  | starsInName => "Invalid pattern: '**' can only be an entire path component"

end PatternFault

/-- A component of a search pattern. -/
inductive PatternPart where
  | anyDepth
  | above
  | named (name : String)
  | matching (glyphs : List Glyph)
deriving DecidableEq, Repr

namespace PatternPart

/-- Whether two stars follow each other. -/
def hasDoubleStar : List Char → Bool
  | '*' :: '*' :: _ => true
  | _ :: cs => hasDoubleStar cs
  | [] => false

def ofString (s : String) : Except PatternFault PatternPart :=
  let cs := s.toList
  if s = "**" then .ok anyDepth
  else if s = Path.up then .ok above
  else if hasDoubleStar cs then .error .starsInName
  else if cs.contains '*' || cs.contains '?' || cs.contains '[' then .ok (matching (Glyph.read s))
  else .ok (named s)

end PatternPart

/-- A search pattern. One that ends in a separator finds directories only. -/
structure SearchPattern where
  parts : List PatternPart
  directoriesOnly : Bool
deriving DecidableEq, Repr

namespace SearchPattern

def everything : String := "*"

def ofString (s : String) : Except PatternFault SearchPattern := do
  let path := Path.ofString s
  if path.isAbsolute then throw .startsAtRoot
  return ⟨← path.parts.mapM PatternPart.ofString, s.toList.getLast? = some '/'⟩

end SearchPattern

end ILDump
