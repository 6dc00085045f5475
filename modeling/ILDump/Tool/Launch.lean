import ILDump.Shell.Run
import ILDump.Tool.Basic
import ILDump.Workspace.Session

/-!
# Starting programs

A program is named by a path, or by a single name that is looked up along the search
path. It has to be an executable file that starts with the name of its interpreter, which
is a shell or again such a program.
-/

namespace ILDump

namespace Launch

def searchVariable : String := "PATH"

def searchPath? (w : Workspace) : Option (List String) :=
  (w.environmentValue? searchVariable).map fun s => (s.toList.splitOn ':').map String.ofList

def usualSearchPath : List String := ["/bin", "/usr/bin"]

/-- A name in a directory of the search path; the empty directory is the current one. -/
def inDirectory (directory name : String) : String :=
  if directory = "" || directory.endsWith "/" then directory ++ name
  else directory ++ "/" ++ name

/-- Whether a path leads to an executable file. -/
def isProgram (w : Workspace) (path : String) : Bool :=
  match w.tree.lookup? w.cwd (Path.ofString path) with
  | some (.file _ isExecutable) => isExecutable
  | _ => false

/-- The first program of a name along the search path. -/
def findOnSearchPath (w : Workspace) (name : String) : Option String :=
  let directories := if w.environmentValue? searchVariable = some "" then []
    else (searchPath? w).getD usualSearchPath
  (directories.map fun d => inDirectory d name).find? (isProgram w)

def shellPaths : List String := ["/bin/sh", "/usr/bin/sh", "/bin/dash", "/usr/bin/dash"]

/-- The interpreter that a file names in its first line, with an argument for it. -/
def interpreter? (content : Bytes) : Option (String × Option String) :=
  match Shell.octets content with
  | '#' :: '!' :: cs =>
    let isBlank := fun c => c = ' ' || c = '\t'
    let line := (cs.takeWhile (· ≠ '\n')).dropWhile isBlank
    let name := line.takeWhile (!isBlank ·)
    let rest := ((line.dropWhile (!isBlank ·)).dropWhile isBlank).reverse.dropWhile isBlank
    if name.isEmpty then none
    else some (Shell.textOf name, if rest.isEmpty then none else some (Shell.textOf rest.reverse))
  | _ => none

/-- How many interpreters may be scripts themselves. -/
def interpreterDepth : Nat := 4

def runScript (w : Workspace) (content : Bytes) (path : String) (arguments : List String)
    (timeout? : Option Int) : Workspace × ProgramEnd :=
  let start : Shell.Machine := {
    tree := w.tree, cwd := w.cwd, name := Shell.octetsOf path
    arguments := arguments.map Shell.octetsOf
    bindings := w.environment.map fun v => (Shell.octetsOf v.1, Shell.octetsOf v.2)
    status := 0, output := [], errors := []
    sinks := [(1, .output), (2, .errors)]
    elapsed := 0, limit? := timeout?.map fun t => t.toNat * 1000, progress := .running }
  let m := start.runScript (Shell.octets content)
  ({ w with tree := m.tree },
    match m.progress with
    | .ended status => .finished status (Shell.bytes m.output.reverse) (Shell.bytes m.errors.reverse)
    | _ => .expired)

def startAt (w : Workspace) (timeout? : Option Int) :
    Nat → String → List String → Workspace × ProgramEnd
  | depth, path, arguments =>
    match w.tree.locate w.cwd (Path.ofString path) with
    | .error e => (w, .refused e)
    | .ok place =>
      match w.tree.node? place with
      | none => (w, .refused .notFound)
      | some .directory => (w, .refused .denied)
      | some (.file _ false) => (w, .refused .denied)
      | some (.file content true) =>
        match interpreter? content, depth with
        | none, _ => (w, .refused .badExecutable)
        | some (name, argument?), depth =>
          if shellPaths.contains name || (name, argument?) = ("/usr/bin/env", some "sh") then
            runScript w content path arguments timeout?
          else
            match depth with
            | 0 => (w, .refused .badExecutable)
            | depth + 1 => startAt w timeout? depth name (argument?.toList ++ path :: arguments)

/-- Tries paths until a program is there. If there is none, the first trouble with
    something that is there counts, or else the last of all. -/
def startFirst (w : Workspace) (timeout? : Option Int) (arguments : List String) :
    Option DiskError → DiskError → List String → Workspace × ProgramEnd
  | trouble?, last, [] => (w, .refused (trouble?.getD last))
  | trouble?, _, path :: rest =>
    match startAt w timeout? interpreterDepth path arguments with
    | (_, .refused e) =>
      startFirst w timeout? arguments (trouble? <|> if e.isAbsence then none else some e) e rest
    | started => started

/-- Starts a program. A limit below zero is over before the program does anything. -/
def start (w : Workspace) (timeout? : Option Int) : List String → Workspace × ProgramEnd
  | [] => (w, .refused .notFound)
  | program :: arguments =>
    let paths := if program.toList.contains '/' then [program]
      else ((searchPath? w).getD usualSearchPath).map fun d => inDirectory d program
    match startFirst w timeout? arguments none .notFound paths with
    | (w', .refused e) => (w', .refused e)
    | (w', result) => if timeout?.any (· < 0) then (w, .expired) else (w', result)

end Launch

/-- How programs are started with a time limit: what becomes of the files, and how the program
    comes to its end. -/
abbrev Launcher : Type :=
  Workspace → Option Int → List String → Tree × ProgramEnd

/-- Starts shell scripts. -/
def Launch.scripts : Launcher := fun w timeout? command =>
  let (w', result) := Launch.start w timeout? command
  (w'.tree, result)

end ILDump
