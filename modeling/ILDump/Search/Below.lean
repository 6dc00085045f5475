import ILDump.Search.Pattern
import ILDump.Workspace.Tree

/-!
# Searching a tree

A search goes through a directory and all directories below it and follows the components
of a pattern from each. All components but the last need a directory. Every file is found
once, however many ways lead to it by the same path.
-/

namespace ILDump

/-- A path with further components. -/
def Path.below (p : Path) (names : List String) : Path :=
  ⟨p.anchor, p.parts ++ names⟩

namespace Tree

/-- The names in a directory. -/
def namesIn (t : Tree) (here : Place) : List String :=
  (t.inside here).filterMap fun e =>
    if e.1.length = here.length + 1 then e.1.getLast? else none

/-- A path and the paths of all directories below it. -/
def directoriesFrom (t : Tree) (cwd : Place) (p : Path) : List Path :=
  match t.locate cwd p with
  | .error _ => [p]
  | .ok here =>
    p :: (t.inside here).filterMap fun e =>
      if e.2 = .directory then some (p.below (e.1.drop here.length)) else none

/-- Whether the search may go on at a path: only a directory has components below it. -/
def mayFollow (t : Tree) (cwd : Place) (p : Path) (rest : List PatternPart) : Bool :=
  if rest.isEmpty then (t.lookup? cwd p).isSome else t.isDirectory cwd p

/-- What the components of a pattern lead to from a path. -/
def select (t : Tree) (cwd : Place) : List PatternPart → Path → List Path
  | [], p => [p]
  | .anyDepth :: rest, p => (t.directoriesFrom cwd p).flatMap (t.select cwd rest)
  | .above :: rest, p => t.select cwd rest (p.below [Path.up])
  | .named name :: rest, p =>
    let found := p.below [name]
    if t.mayFollow cwd found rest then t.select cwd rest found else []
  | .matching glyphs :: rest, p =>
    match t.locate cwd p with
    | .error _ => []
    | .ok here =>
      let names := (t.namesIn here).filter fun name => Glyph.matchAll glyphs name.toList
      let found := names.map fun name => p.below [name]
      (found.filter fun q => t.mayFollow cwd q rest).flatMap (t.select cwd rest)

/-- The files below a directory that a pattern finds, each once. -/
def filesBelow (t : Tree) (cwd : Place) (p : Path) (pattern : SearchPattern) : List Path :=
  if pattern.directoriesOnly || !t.isDirectory cwd p then []
  else (t.select cwd (.anyDepth :: pattern.parts) p).eraseDups.filter (t.isFile cwd)

end Tree

end ILDump
