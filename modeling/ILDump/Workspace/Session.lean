import ILDump.Text.Utf8
import ILDump.Workspace.Work

/-!
# Sessions

A session works on a workspace: the file tree, the working directory, the environment,
the settings read from a file, and what was logged and printed.
-/

namespace ILDump

/-- What a session works on. -/
structure Workspace where
  tree : Tree
  cwd : Place
  environment : List (String × String)
  /-- The settings read from a file, once they were. -/
  settings? : Option (List (String × String))
  log : Array LogRecord
  /-- Lines for standard output. -/
  printed : Array String
  /-- Lines for standard error. -/
  complaints : Array String

/-- Work on a workspace. -/
abbrev Session (α : Type) : Type :=
  Work Workspace α

namespace Workspace

/-- A workspace without settings, log and output. -/
def ofTree (tree : Tree) (cwd : Place) (environment : List (String × String)) : Workspace :=
  ⟨tree, cwd, environment, none, #[], #[], #[]⟩

def cwdPath (w : Workspace) : Path :=
  ⟨.root, w.cwd⟩

def environmentValue? (w : Workspace) (key : String) : Option String :=
  (w.environment.find? fun p => p.1 = key).map (·.2)

def setVariable (w : Workspace) (key value : String) : Workspace :=
  { w with environment := (key, value) :: w.environment.filter fun p => p.1 ≠ key }

def unsetVariable (w : Workspace) (key : String) : Workspace :=
  { w with environment := w.environment.filter fun p => p.1 ≠ key }

def isFile (w : Workspace) (p : Path) : Bool :=
  w.tree.isFile w.cwd p

def isDirectory (w : Workspace) (p : Path) : Bool :=
  w.tree.isDirectory w.cwd p

def read (w : Workspace) (p : Path) : Except DiskError Bytes :=
  w.tree.read w.cwd p

/-- The working directory, which may be gone. -/
def standing (w : Workspace) : Except Failure Path :=
  if w.tree.node? w.cwd = some .directory then .ok w.cwdPath else .error (.astray .notFound)

/-- Whether a path leads to a file, if that can be told. -/
def hasFile (w : Workspace) (p : Path) : Except Failure Bool :=
  match w.tree.refusal? w.cwd p with
  | some e => .error (.disk e p.text)
  | none => .ok (w.isFile p)

end Workspace

namespace Session

def log (level : LogLevel) (text : String) : Session Unit :=
  modify fun w => { w with log := w.log.push ⟨level, text⟩ }

def print (line : String) : Session Unit :=
  modify fun w => { w with printed := w.printed.push line }

def complain (line : String) : Session Unit :=
  modify fun w => { w with complaints := w.complaints.push line }

/-- Asks a question, which leaves the workspace as it is. -/
def ask {α : Type} (question : Workspace → Except Failure α) : Session α := fun w =>
  match question w with
  | .ok a => .ok a w
  | .error f => .error f w

/-- The content of a file, or why it cannot be read. -/
def read (p : Path) : Session (Except DiskError Bytes) := do
  return (← get).read p

/-- Writes a file; tells why it cannot be written. -/
def write (p : Path) (content : Bytes) : Session (Option DiskError) := do
  let w ← get
  match w.tree.write w.cwd p content with
  | .ok tree =>
    set { w with tree }
    return none
  | .error e => return some e

/-- Creates a directory and all that are missing above it. -/
def makeDirectories (p : Path) : Session Unit := do
  let w ← get
  let (tree, error?) := Tree.makeDirectories w.cwd p.parts.length p w.tree
  set { w with tree }
  match error? with
  | some e => throw (.disk e p.text)
  | none => return

end Session

end ILDump
