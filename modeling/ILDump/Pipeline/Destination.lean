import ILDump.Path

/-!
# Where listings go

Every input has a directory of its own below the output root, named after the last
component of its absolute path. The listing of a file input lies directly in it. Below a
directory input each file has again a directory of its own, and the directories between
input and file may be kept in between.
-/

namespace ILDump

/-- What an input was when it was first looked at. -/
inductive InputKind where
  | file
  | directory
deriving DecidableEq, Repr

namespace InputKind

def text : InputKind → String
  | file => "file"
  | directory => "directory"

def ofText? (s : String) : Option InputKind :=
  [file, directory].find? fun k => k.text = s

theorem ofText?_text (k : InputKind) : ofText? k.text = some k := by
  cases k <;> decide

end InputKind

/-- A path given to the program, and what it led to. -/
structure Input where
  path : Path
  kind : InputKind
deriving DecidableEq, Repr

/-- A file found below an input. -/
structure Candidate where
  path : Path
  input : Input
deriving DecidableEq, Repr

/-- What the names of listings, and of the directories around them, end in. -/
def listingSuffix : String := ".il"

/-- The last component of the absolute path, so that `.` names a directory too. -/
def rootName (cwd p : Path) : String :=
  (p.absolute cwd).name

namespace Candidate

/-- The directory for an input below the output root. -/
def inputDirectory (cwd outputRoot : Path) (input : Input) : Path :=
  outputRoot.child (rootName cwd input.path ++ listingSuffix)

/-- The directories between an input and a file below it. -/
def between (cwd : Path) (c : Candidate) : Path :=
  (c.path.parent.absolute cwd).relativeTo (c.input.path.absolute cwd)

/-- Where the listing of a file goes. -/
def destination (cwd outputRoot : Path) (keepStructure : Bool) (c : Candidate) : Path :=
  let base := inputDirectory cwd outputRoot c.input
  let name := c.path.name
  match c.input.kind with
  | .file => base.child (name ++ listingSuffix)
  | .directory =>
    let base := if keepStructure then base.join (c.between cwd) else base
    (base.child name).child (name ++ listingSuffix)

end Candidate

end ILDump
