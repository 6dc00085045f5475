import ILDump.Shell.Syntax
import ILDump.Text.Digits
import ILDump.Workspace.Tree

/-!
# The state of a running script

A script runs on a file tree, with arguments and variables. What it prints goes to one of
its two streams or to a file. It ends with a status, or its time runs out.
-/

namespace ILDump.Shell

/-- Where printed octets go to. -/
inductive Sink where
  | output
  | errors
  | file (place : Place)
  | nowhere
deriving DecidableEq, Repr

/-- Whether a script still runs. A script that was killed has a negative status. -/
inductive Progress where
  | running
  | ended (status : Int)
  | expired
deriving DecidableEq, Repr

/-- A running script. -/
structure Machine where
  tree : Tree
  cwd : Place
  name : Octets
  arguments : List Octets
  bindings : List (Octets × Octets)
  /-- The status of the last command. -/
  status : Nat
  /-- What was printed, in reverse. -/
  output : Octets
  /-- What was printed for errors, in reverse. -/
  errors : Octets
  sinks : List (Nat × Sink)
  /-- How long the script has slept, in milliseconds. -/
  elapsed : Nat
  limit? : Option Nat
  progress : Progress

namespace Machine

/-- The number of the running script, as it is shown to itself. -/
def processNumber : Octets := ['1', '0', '0', '0']

def isRunning (m : Machine) : Bool :=
  m.progress = .running

/-- Notes the status of a command. -/
def withStatus (m : Machine) (status : Nat) : Machine :=
  { m with status }

def finish (m : Machine) (status : Int) : Machine :=
  { m with progress := .ended status }

/-! ### Streams -/

/-- Where a stream goes to. -/
def sink (m : Machine) (stream : Nat) : Sink :=
  ((m.sinks.find? fun s => s.1 = stream).map (·.2)).getD .nowhere

def direct (m : Machine) (stream : Nat) (target : Sink) : Machine :=
  { m with sinks := (stream, target) :: m.sinks.filter fun s => s.1 ≠ stream }

/-- Prints octets on a stream. -/
def emit (m : Machine) (stream : Nat) (cs : Octets) : Machine :=
  match m.sink stream with
  | .output => { m with output := cs.reverse ++ m.output }
  | .errors => { m with errors := cs.reverse ++ m.errors }
  | .nowhere => m
  | .file place =>
    match m.tree.node? place with
    | some (.file content isExecutable) =>
      { m with tree := m.tree.put place (.file (content ++ bytes cs) isExecutable) }
    | _ => m

/-- Prints an error with the name of the script and the line. -/
def complain (m : Machine) (line : Nat) (text : Octets) : Machine :=
  m.emit 2 (m.name ++ octetsOf (": " ++ toString line ++ ": ") ++ text ++ ['\n'])

/-! ### Time -/

/-- Sleeps for milliseconds. -/
def sleep (m : Machine) (duration : Nat) : Machine :=
  let elapsed := m.elapsed + duration
  if m.limit?.any (· ≤ elapsed) then { m with elapsed, progress := .expired }
  else { m with elapsed, status := 0 }

/-! ### Values -/

def variableValue? (m : Machine) (name : Octets) : Option Octets :=
  (m.bindings.find? fun v => v.1 = name).map (·.2)

def assign (m : Machine) (name value : Octets) : Machine :=
  { m with bindings := (name, value) :: m.bindings.filter fun v => v.1 ≠ name }

/-- The value of a parameter, if it is set. -/
def value? (m : Machine) : Parameter → Option Octets
  | .named name => m.variableValue? name
  | .argument 0 => some m.name
  | .argument (n + 1) => m.arguments[n]?
  | .allArguments => some (List.intercalate [' '] m.arguments)
  | .argumentCount => some (toString m.arguments.length).toList
  | .lastStatus => some (toString m.status).toList
  | .processId => some processNumber

/-- The shortest or longest front that matches, as a number of characters. -/
def matchingFront? (isLongest : Bool) (pattern : List Glyph) (cs : Octets) : Option Nat :=
  let sizes := List.range (cs.length + 1)
  (if isLongest then sizes.reverse else sizes).find? fun n => Glyph.matchAll pattern (cs.take n)

/-- The shortest or longest end that matches, as the number of characters before it. -/
def matchingBack? (isLongest : Bool) (pattern : List Glyph) (cs : Octets) : Option Nat :=
  let sizes := List.range (cs.length + 1)
  (if isLongest then sizes else sizes.reverse).find? fun n => Glyph.matchAll pattern (cs.drop n)

/-- The value of a parameter after a change; one that is not set is empty. -/
def modified (m : Machine) (p : Parameter) (change : Modifier) : Octets :=
  let value := (m.value? p).getD []
  match change with
  | .unchanged => value
  | .dropFront isLongest pattern =>
    ((matchingFront? isLongest pattern value).map value.drop).getD value
  | .dropBack isLongest pattern =>
    ((matchingBack? isLongest pattern value).map value.take).getD value
  | .orElse countsEmpty text =>
    if (m.value? p).isNone || (countsEmpty && value.isEmpty) then text else value
  | .size => (toString value.length).toList

/-! ### Words -/

/-- The fields that a word has come to: the ones that are complete, the last one first,
    and the one that is still open. -/
structure Fields where
  closed : List Octets
  current? : Option Octets

namespace Fields

def add (f : Fields) (cs : Octets) : Fields :=
  { f with current? := some (f.current?.getD [] ++ cs) }

def close (f : Fields) : Fields :=
  ⟨f.current?.toList ++ f.closed, none⟩

/-- Adds octets that are split at blanks. -/
def addSplit (f : Fields) (cs : Octets) : Fields :=
  cs.foldl (fun f c => if c = ' ' || c = '\t' || c = '\n' then f.close else f.add [c]) f

/-- Adds octets as fields of their own, the first and last joined to what is around. -/
def addFields (f : Fields) : List Octets → Fields
  | [] => f
  | [cs] => f.add cs
  | cs :: rest => ((f.add cs).close).addFields rest

def all (f : Fields) : List Octets :=
  f.close.closed.reverse

end Fields

/-- Adds a piece of a word to the fields before it. -/
def addPiece (m : Machine) (f : Fields) : Piece → Fields
  | .text cs _ => f.add cs
  | .value .allArguments _ true => f.addFields m.arguments
  | .value p change true => f.add (m.modified p change)
  | .value .allArguments _ false =>
    m.arguments.foldl (fun f argument => (f.addSplit argument).close) f
  | .value p change false => f.addSplit (m.modified p change)

/-- The fields of a word. -/
def fields (m : Machine) (w : Word) : List Octets :=
  (w.foldl m.addPiece ⟨[], none⟩).all

/-- A word as one text. -/
def joined (m : Machine) (w : Word) : Octets :=
  w.flatMap fun piece =>
    match piece with
    | .text cs _ => cs
    | .value p change _ => m.modified p change

/-- A word as a pattern; only what is not quoted has signs of a pattern. -/
def pattern (m : Machine) (w : Word) : List Glyph :=
  w.flatMap fun piece =>
    let read := fun (cs : Octets) (isQuoted : Bool) =>
      if isQuoted then cs.map Glyph.exactly else Glyph.readUpTo cs.length cs
    match piece with
    | .text cs isQuoted => read cs isQuoted
    | .value p change isQuoted => read (m.modified p change) isQuoted

/-! ### Redirections -/

/-- The path that octets name. -/
def pathOf (cs : Octets) : Path :=
  Path.ofString (textOf cs)

/-- Why a file cannot be written, in the words of the shell. -/
def creationFault : DiskError → String
  | .notFound => "Directory nonexistent"
  | .notADirectory => "Directory nonexistent"
  | e => e.reason

/-- Opens a file for printing. -/
def openFile (m : Machine) (p : Path) (appends : Bool) : Except DiskError (Place × Tree) := do
  let place ← m.tree.locate m.cwd p
  match m.tree.node? place with
  | some .directory => .error .isADirectory
  | some (.file _ isExecutable) =>
    return (place, if appends then m.tree else m.tree.put place (.file [] isExecutable))
  | none => return (place, m.tree.put place (.file [] false))

/-- Follows a redirection; gives the machine and whether that succeeded. -/
def redirect (m : Machine) (line : Nat) : Redirection → Machine × Bool
  | .file stream appends target =>
    let target := m.joined target
    if textOf target = "/dev/null" then (m.direct stream .nowhere, true)
    else
      match m.openFile (pathOf target) appends with
      | .ok (place, tree) => ({ m with tree }.direct stream (.file place), true)
      | .error e =>
        (m.complain line
          (octetsOf "cannot create " ++ target ++ octetsOf (": " ++ creationFault e)), false)
  | .copy stream target =>
    match m.joined target with
    | ['-'] => (m.direct stream .nowhere, true)
    | [digit] => (m.direct stream (m.sink (digit.toNat - 48)), true)
    | _ => (m.complain line (octetsOf "Bad fd number"), false)
  | .input target =>
    let target := m.joined target
    if textOf target = "/dev/null" then (m, true)
    else
      match m.tree.read m.cwd (pathOf target) with
      | .ok _ => (m, true)
      | .error .isADirectory => (m, true)
      | .error _ =>
        (m.complain line (octetsOf "cannot open " ++ target ++ octetsOf ": No such file"), false)

/-- Follows redirections up to the first that fails. -/
def redirectAll (m : Machine) (line : Nat) : List Redirection → Machine × Bool
  | [] => (m, true)
  | r :: rest =>
    match m.redirect line r with
    | (m, true) => m.redirectAll line rest
    | failed => failed

end Machine

end ILDump.Shell
