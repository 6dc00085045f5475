import ILDump.Bytes
import ILDump.Path
import ILDump.Text.Quoted
import ILDump.Text.Utf8

/-!
# File trees

A file tree maps places to files and directories. A place is the list of names on the
way from the root; the root is always a directory. A path is followed name by name, and
each step needs a directory to stand on, also for `..`.

There may be places that the system lets nobody go to, because a name is too long for it or
a directory is closed. Whether there is anything at such a place cannot be told, so nothing
is.
-/

namespace ILDump

/-- The names on the way from the root. -/
abbrev Place := List String

/-- What there is at a place. -/
inductive Node where
  | file (content : Bytes) (isExecutable : Bool)
  | directory
deriving DecidableEq, Repr

/-- Why something could not be done to a file. -/
inductive DiskError where
  | notFound
  | badExecutable
  | denied
  | exists
  | notADirectory
  | isADirectory
  | nameTooLong
deriving DecidableEq, Repr

namespace DiskError

def number : DiskError → Nat
  | notFound => 2
  | badExecutable => 8
  | denied => 13
  | .exists => 17
  | notADirectory => 20
  | isADirectory => 21
  | nameTooLong => 36

def reason : DiskError → String
  | notFound => "No such file or directory"
  | badExecutable => "Exec format error"
  | denied => "Permission denied"
  | .exists => "File exists"
  | notADirectory => "Not a directory"
  | isADirectory => "Is a directory"
  | nameTooLong => "File name too long"

def text (e : DiskError) : String :=
  "[Errno " ++ toString e.number ++ "] " ++ e.reason

def message (e : DiskError) (path : String) : String :=
  e.text ++ ": " ++ Quoted.display path

/-- Whether an error says that there is nothing at a path. -/
def isAbsence : DiskError → Bool
  | notFound => true
  | notADirectory => true
  | _ => false

end DiskError

/-- Files and directories by place, and what is said of places where nobody may go. -/
structure Tree where
  entries : List (Place × Node)
  barrier? : Place → Option DiskError

namespace Tree

/-- How many octets a name may have. -/
def nameLimit : Nat := 255

/-- A name that is too long leads nowhere. -/
def overlong? (p : Place) : Option DiskError :=
  match p.getLast? with
  | some name => if nameLimit < (Utf8.encode name).length then some .nameTooLong else none
  | none => none

/-- A tree without closed directories. -/
def ofEntries (entries : List (Place × Node)) : Tree where
  entries := entries
  barrier? := overlong?

def node? (t : Tree) (p : Place) : Option Node :=
  if p.isEmpty then some .directory else (t.entries.find? fun e => e.1 = p).map (·.2)

/-- Puts something at a place, instead of what was there. -/
def put (t : Tree) (p : Place) (n : Node) : Tree :=
  if (t.entries.any fun e => e.1 = p) then
    { t with entries := t.entries.map fun e => if e.1 = p then (p, n) else e }
  else
    { t with entries := t.entries ++ [(p, n)] }

def erase (t : Tree) (p : Place) : Tree :=
  { t with entries := t.entries.filter fun e => e.1 ≠ p }

/-- Follows names from a place. The last name may be missing. -/
def walk (t : Tree) : Place → List String → Except DiskError Place
  | here, [] => .ok here
  | here, part :: rest =>
    match t.node? here with
    | none => .error .notFound
    | some (.file _ _) => .error .notADirectory
    | some .directory =>
      if part = Path.up then walk t here.dropLast rest
      else
        match t.barrier? (here ++ [part]) with
        | some e => .error e
        | none => walk t (here ++ [part]) rest

/-- The place of a path seen from a working directory. -/
def locate (t : Tree) (cwd : Place) (p : Path) : Except DiskError Place :=
  t.walk (if p.isAbsolute then [] else cwd) p.parts

/-- Why it cannot be told what a path leads to, or whether it leads to anything. -/
def refusal? (t : Tree) (cwd : Place) (p : Path) : Option DiskError :=
  match t.locate cwd p with
  | .ok _ => none
  | .error e => if e.isAbsence then none else some e

/-- What a path leads to. -/
def lookup? (t : Tree) (cwd : Place) (p : Path) : Option Node :=
  match t.locate cwd p with
  | .ok place => t.node? place
  | .error _ => none

def isFile (t : Tree) (cwd : Place) (p : Path) : Bool :=
  match t.lookup? cwd p with
  | some (.file _ _) => true
  | _ => false

def isDirectory (t : Tree) (cwd : Place) (p : Path) : Bool :=
  t.lookup? cwd p = some .directory

def read (t : Tree) (cwd : Place) (p : Path) : Except DiskError Bytes := do
  let place ← t.locate cwd p
  match t.node? place with
  | some (.file content _) => .ok content
  | some .directory => .error .isADirectory
  | none => .error .notFound

/-- Writes a file, creating it if it is missing. -/
def write (t : Tree) (cwd : Place) (p : Path) (content : Bytes) : Except DiskError Tree := do
  let place ← t.locate cwd p
  match t.node? place with
  | some (.file _ isExecutable) => .ok (t.put place (.file content isExecutable))
  | some .directory => .error .isADirectory
  | none => .ok (t.put place (.file content false))

def makeDirectory (t : Tree) (cwd : Place) (p : Path) : Except DiskError Tree := do
  let place ← t.locate cwd p
  match t.node? place with
  | some _ => .error .exists
  | none => .ok (t.put place .directory)

/-- Creates a directory with at most `depth` missing ones above it. A failure leaves the
    directories that were created before it. -/
def makeDirectories (cwd : Place) : Nat → Path → Tree → Tree × Option DiskError
  | depth, p, t =>
    match t.makeDirectory cwd p, depth with
    | .ok t, _ => (t, none)
    | .error .notFound, depth + 1 =>
      match makeDirectories cwd depth p.parent t with
      | (t, some e) => (t, some e)
      | (t, none) =>
        match t.makeDirectory cwd p with
        | .ok t => (t, none)
        | .error e => (t, if t.isDirectory cwd p then none else some e)
    | .error e, _ => (t, if t.isDirectory cwd p then none else some e)

/-- The places inside a place, with what is there, in no particular order. -/
def inside (t : Tree) (p : Place) : List (Place × Node) :=
  t.entries.filter fun e => p.isPrefixOf e.1 && p.length < e.1.length

end Tree

end ILDump
