import ILDump.Shell.Format
import ILDump.Shell.Machine
import ILDump.Shell.Reader

/-!
# Running scripts

Every command leaves a status, zero for success. The commands here are those of the shell
itself and a few programs that are everywhere. A script runs for a bounded number of
steps; one that takes more counts as endless, and its time runs out.
-/

namespace ILDump.Shell

namespace Machine

/-! ### Programs -/

def signalNumber? (cs : Octets) : Option Nat :=
  let names := [("HUP", 1), ("INT", 2), ("QUIT", 3), ("ILL", 4), ("TRAP", 5), ("ABRT", 6), ("BUS", 7),
    ("FPE", 8), ("KILL", 9), ("USR1", 10), ("SEGV", 11), ("USR2", 12), ("PIPE", 13), ("ALRM", 14),
    ("TERM", 15)]
  let name := textOf cs
  let name := if name.startsWith "SIG" then String.ofList (name.toList.drop 3) else name
  match (names.find? fun n => n.1 = name).map (·.2) with
  | some n => some n
  | none => if cs.all Char.isDigit && !cs.isEmpty then name.toNat? else none

/-- Sends a signal to processes; only the script itself can be among them. -/
def sendSignal (m : Machine) (signal? : Option Nat) (targets : List Octets) : Machine :=
  match signal? with
  | none => m.withStatus 2
  | some signal =>
    if !targets.contains processNumber then m.withStatus 1
    else if signal = 0 then m.withStatus 0
    else m.finish (-(signal : Int))

/-- Sends a signal, as the arguments say. -/
def kill (m : Machine) : List Octets → Machine
  | ['-', 's'] :: name :: targets => m.sendSignal (signalNumber? name) targets
  | ('-' :: name) :: targets => m.sendSignal (signalNumber? name) targets
  | targets => m.sendSignal (some 15) targets

/-- The milliseconds that an argument stands for. -/
def milliseconds (cs : Octets) : Nat :=
  let number := fun (cs : Octets) => cs.foldl (fun n c => n * 10 + (c.toNat - 48)) 0
  let whole := cs.takeWhile Char.isDigit
  let rest := cs.dropWhile Char.isDigit
  let fraction := (rest.drop 1).takeWhile Char.isDigit
  let rest := if rest.head? = some '.' then (rest.drop 1).dropWhile Char.isDigit else rest
  let fraction := if fraction.length < 3 then fraction ++ List.replicate (3 - fraction.length) '0' else
    fraction.take 3
  let unit := match rest with
    | ['m'] => 60
    | ['h'] => 3600
    | _ => 1
  (number whole * 1000 + number fraction) * unit

/-- Whether a condition holds; `none` if it is none. -/
def holds? (m : Machine) : List Octets → Option Bool
  | [] => some false
  | [cs] => some !cs.isEmpty
  | ['!'] :: rest => (holds? m rest).map (!·)
  | [sign, cs] =>
    let node? := m.tree.lookup? m.cwd (pathOf cs)
    match textOf sign with
    | "-n" => some !cs.isEmpty
    | "-z" => some cs.isEmpty
    | "-e" => some node?.isSome
    | "-r" => some node?.isSome
    | "-w" => some node?.isSome
    | "-f" => some (m.tree.isFile m.cwd (pathOf cs))
    | "-d" => some (m.tree.isDirectory m.cwd (pathOf cs))
    | "-s" => some <| match node? with
      | some (.file content _) => !content.isEmpty
      | some .directory => true
      | none => false
    | "-x" => some <| match node? with
      | some (.file _ isExecutable) => isExecutable
      | some .directory => true
      | none => false
    | _ => none
  | [a, sign, b] =>
    let x := (argumentNumber a).1
    let y := (argumentNumber b).1
    match textOf sign with
    | "=" => some (a = b)
    | "!=" => some (a ≠ b)
    | "-eq" => some (x = y)
    | "-ne" => some (x ≠ y)
    | "-lt" => some (x < y)
    | "-le" => some (x ≤ y)
    | "-gt" => some (y < x)
    | "-ge" => some (y ≤ x)
    | _ => none
  | _ => none

def check (m : Machine) (args : List Octets) : Machine :=
  match m.holds? args with
  | some true => m.withStatus 0
  | some false => m.withStatus 1
  | none => m.withStatus 2

/-- Does something for each argument; the last one that fails decides about the status. -/
def forArguments (m : Machine) (args : List Octets) (act : Machine → Octets → Machine × Bool) :
    Machine :=
  args.foldl (fun m arg =>
    let (m', done) := act m arg
    if done then m' else m'.withStatus 1) (m.withStatus 0)

/-- The arguments that are no options, and whether an option has a letter. -/
def splitOptions (args : List Octets) : List Octets × (Char → Bool) :=
  let isOption := fun (cs : Octets) => cs.head? = some '-' && 1 < cs.length
  let options := args.takeWhile isOption
  (args.drop options.length, fun letter => options.any fun o => o.contains letter)

/-- Removes a file, or a directory with all in it. -/
def remove (isForced isDeep : Bool) (m : Machine) (arg : Octets) : Machine × Bool :=
  let refuse := fun (reason : String) =>
    (m.emit 2 (octetsOf "rm: cannot remove '" ++ arg ++ octetsOf ("': " ++ reason ++ "\n")), false)
  match m.tree.locate m.cwd (pathOf arg) with
  | .error e => if isForced && e.isAbsence then (m, true) else refuse e.reason
  | .ok place =>
    match m.tree.node? place with
    | none => if isForced then (m, true) else refuse "No such file or directory"
    | some (.file _ _) => ({ m with tree := m.tree.erase place }, true)
    | some .directory =>
      if isDeep then
        ({ m with tree := (m.tree.inside place).foldl (fun t e => t.erase e.1) (m.tree.erase place) },
          true)
      else refuse "Is a directory"

def printFile (m : Machine) (arg : Octets) : Machine × Bool :=
  match m.tree.read m.cwd (pathOf arg) with
  | .ok content => (m.emit 1 (octets content), true)
  | .error e => (m.emit 2 (octetsOf "cat: " ++ arg ++ octetsOf (": " ++ e.reason ++ "\n")), false)

/-- Creates a file unless there is one. -/
def touch (m : Machine) (arg : Octets) : Machine × Bool :=
  match m.openFile (pathOf arg) true with
  | .ok (_, tree) => ({ m with tree }, true)
  | .error .isADirectory => (m, true)
  | .error e =>
    (m.emit 2 (octetsOf "touch: cannot touch '" ++ arg ++ octetsOf ("': " ++ e.reason ++ "\n")),
      false)

/-- Creates a directory, with those above it if they are wanted. -/
def makeDirectory (isDeep : Bool) (m : Machine) (arg : Octets) : Machine × Bool :=
  let p := pathOf arg
  if isDeep then
    let (tree, error?) := Tree.makeDirectories m.cwd p.parts.length p m.tree
    ({ m with tree }, error?.isNone)
  else
    match m.tree.makeDirectory m.cwd p with
    | .ok tree => ({ m with tree }, true)
    | .error _ => (m, false)

def printFormat (m : Machine) (line : Nat) : List Octets → Machine
  | [] => m.withStatus 2
  | ['-', '-'] :: format :: args => printFormat m line (format :: args)
  | format :: args =>
    let (text, refused) := formatted format args
    let m := refused.foldl (fun m arg =>
      m.complain line (octetsOf "printf: " ++ arg ++ octetsOf ": expected numeric value")) m
    (m.emit 1 text).withStatus (if refused.isEmpty then 0 else 1)
termination_by args => args.length

/-- The status that an argument asks for; a script ends with eight bits of it. -/
def statusOf (m : Machine) (args : List Octets) : Nat :=
  match args with
  | [] => m.status
  | arg :: _ => ((argumentNumber arg).1 % 256).toNat

def changeDirectory (m : Machine) (line : Nat) (args : List Octets) : Machine :=
  let arg := args.headD []
  match m.tree.locate m.cwd (pathOf arg) with
  | .ok place =>
    if m.tree.node? place = some .directory then { m with cwd := place, status := 0 }
    else (m.complain line (octetsOf "cd: can't cd to " ++ arg)).withStatus 2
  | .error _ => (m.complain line (octetsOf "cd: can't cd to " ++ arg)).withStatus 2

/-- Runs a command by its name. -/
def command (m : Machine) (line : Nat) (name : Octets) (args : List Octets) : Machine :=
  let (names, hasOption) := splitOptions args
  match textOf name with
  | ":" => m.withStatus 0
  | "true" => m.withStatus 0
  | "false" => m.withStatus 1
  | "echo" => (m.emit 1 (echoed args)).withStatus 0
  | "printf" => m.printFormat line args
  | "exit" => m.finish (m.statusOf args)
  | "kill" => m.kill args
  | "test" => m.check args
  | "[" =>
    if args.getLast? = some [']'] then m.check args.dropLast
    else (m.complain line (octetsOf "[: missing ]")).withStatus 2
  | "shift" =>
    let count := if args.isEmpty then 1 else m.statusOf args
    { m with arguments := m.arguments.drop count, status := 0 }
  | "cd" => m.changeDirectory line args
  | "set" => m.withStatus 0
  | "export" =>
    (args.foldl (fun m arg =>
      if arg.contains '=' then m.assign (arg.takeWhile (· ≠ '=')) ((arg.dropWhile (· ≠ '=')).drop 1)
      else m) m).withStatus 0
  | "unset" =>
    { m with bindings := m.bindings.filter fun v => !args.contains v.1, status := 0 }
  | "sleep" => args.foldl (fun m arg => if m.isRunning then m.sleep (milliseconds arg) else m) m
  | "rm" => m.forArguments names (remove (hasOption 'f') (hasOption 'r' || hasOption 'R'))
  | "cat" => m.forArguments names printFile
  | "touch" => m.forArguments names touch
  | "mkdir" => m.forArguments names (makeDirectory (hasOption 'p'))
  | _ => (m.complain line (name ++ octetsOf ": not found")).withStatus 127

/-- Runs a simple command. Its redirections hold for it alone, unless it replaces the
    script. -/
def simple (m : Machine) (line : Nat) (assignments : List (Octets × Word)) (words : List Word)
    (redirections : List Redirection) : Machine :=
  let found := words.flatMap m.fields
  let before := m.sinks
  let m := assignments.foldl (fun m a => m.assign a.1 (m.joined a.2)) m
  let restore := fun (m : Machine) => { m with sinks := before }
  match m.redirectAll line redirections, found with
  | (m, false), name :: _ =>
    if ["exec", ":", "exit", "set", "shift", "export", "unset"].contains (textOf name) then m.finish 2
    else restore (m.withStatus 2)
  | (m, false), [] => restore (m.withStatus 2)
  | (m, true), [] => restore (m.withStatus 0)
  | (m, true), [['e', 'x', 'e', 'c']] => m.withStatus 0
  | (m, true), ['e', 'x', 'e', 'c'] :: name :: args =>
    let m := m.command line name args
    if m.isRunning then m.finish m.status else m
  | (m, true), name :: args => restore (m.command line name args)

/-- Runs a command for at most so many nested steps. -/
def run : Nat → Command → Machine → Machine
  | 0, _, m => { m with progress := .expired }
  | fuel + 1, c, m =>
    if !m.isRunning then m
    else
      match c with
      | .nothing => m
      | .simple line assignments words redirections => m.simple line assignments words redirections
      | .sequence first second => run fuel second (run fuel first m)
      | .both first second =>
        let m := run fuel first m
        if m.status = 0 then run fuel second m else m
      | .either first second =>
        let m := run fuel first m
        if m.status = 0 then m else run fuel second m
      | .negated c =>
        let m := run fuel c m
        m.withStatus (if m.status = 0 then 1 else 0)
      | .choice test yes no =>
        let m := run fuel test m
        if m.status = 0 then run fuel yes m
        else if !m.isRunning then m
        else run fuel no (m.withStatus 0)
      | .repeated isUntil test body =>
        let m := run fuel test m
        if !m.isRunning then m
        else if (m.status = 0) != isUntil then run fuel c (run fuel body m)
        else m.withStatus 0
      | .forEach name words? body =>
        let values := match words? with
          | some words => words.flatMap m.fields
          | none => m.arguments
        values.foldl (fun m value => if m.isRunning then run fuel body (m.assign name value) else m)
          (m.withStatus 0)
      | .arm subject patterns body rest =>
        let text := m.joined subject
        if patterns.any fun p => Glyph.matchAll (m.pattern p) text then
          run fuel body (m.withStatus 0)
        else run fuel rest (m.withStatus 0)
      | .redirected line redirections c =>
        match m.redirectAll line redirections with
        | (m', true) => { run fuel c m' with sinks := m.sinks }
        | (m', false) => { m'.withStatus 2 with sinks := m.sinks }
      | .separate c =>
        let inner := run fuel c m
        let outer := { inner with
          cwd := m.cwd, bindings := m.bindings, arguments := m.arguments, sinks := m.sinks }
        match inner.progress with
        | .ended status =>
          if 0 ≤ status then { outer with progress := .running, status := status.toNat } else outer
        | _ => outer

/-- How many nested steps a script may take. -/
def stepLimit : Nat := 10000

/-- Runs a script to its end. One that cannot be read ends at once. -/
def runScript (script : Octets) (m : Machine) : Machine :=
  match readScript? script with
  | some c =>
    let m := run stepLimit c m
    if m.isRunning then m.finish m.status else m
  | none => (m.complain 1 (octetsOf "Syntax error")).finish 2

end Machine

end ILDump.Shell
