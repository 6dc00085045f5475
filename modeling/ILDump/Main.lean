import ILDump.CommandLine.Run

/-!
# The program

Commands work on a workspace in memory. Before a command, all that its arguments and
settings may name is read from disk; after it, what was written is put back.
-/

namespace ILDump.Program

def placeText (p : Place) : String :=
  (Path.mk .root p).text

/-- Adds a directory and all above it. -/
def withDirectories (t : Tree) (p : Place) : Tree :=
  (List.range (p.length + 1)).foldl (fun t n =>
    match t.node? (p.take n) with
    | some _ => t
    | none => t.put (p.take n) .directory) t

/-- Whether a file is a script; those are the files that can be started. -/
def isScript (content : Bytes) : Bool :=
  content.take 2 = [0x23, 0x21]

/-- Reads what is at a place, with all in it. What cannot be read is not there. -/
partial def load (t : Tree) (p : Place) : IO Tree :=
  try
    let found ← IO.FS.realPath (placeText p)
    if ← found.isDir then
      let entries ← found.readDir
      entries.foldlM (fun t e => load t (p ++ [e.fileName])) (withDirectories t p)
    else
      let content := (← IO.FS.readBinFile found).toList
      return (withDirectories t p.dropLast).put p (.file content (isScript content))
  catch _ => return t

def variableNames : List String :=
  Launch.searchVariable :: Settings.keys.map (·.1)

def environment : IO (List (String × String)) := do
  let found ← variableNames.mapM fun name => do
    return (← IO.getEnv name).map fun value => (name, value)
  return found.filterMap id

def settingsPlaces (cwd : Place) : List Place :=
  (List.range Settings.searchDepth).map fun n => cwd.take (cwd.length - n) ++ [Settings.fileName]

/-- The places along the search path where the tool may be. -/
def toolPlaces (w : Workspace) : List Place :=
  let directories := ((Launch.searchPath? w).getD Launch.usualSearchPath).map Path.ofString
  directories.flatMap fun d =>
    Tool.searchedNames.map fun name => ((d.child name).absolute w.cwdPath).parts

/-- A workspace with all that a command line may name. -/
def workspace (args : List String) : IO Workspace := do
  let cwd := (Path.ofString (← IO.currentDir).toString).parts
  let settings ← environment
  let w := Workspace.ofTree (withDirectories (.ofEntries []) cwd) cwd settings
  let tree ← (settingsPlaces cwd).foldlM load w.tree
  let w := { w with tree }
  let more := match Settings.load.run w with
    | .ok _ w => w.settings?.getD []
    | .error _ _ => []
  let attached := args.filterMap fun arg => (Arguments.Grammar.splitValue arg).2
  let named := args ++ attached ++ (settings ++ more).map (·.2)
  let places := named.map fun s => ((Path.ofString s).absolute w.cwdPath).parts
  let tree ← ((cwd ++ [Tool.programName]) :: toolPlaces w ++ places).foldlM load w.tree
  return { w with tree }

/-- Puts back what was written. -/
def save (before after : Tree) : IO Unit := do
  for (p, node) in after.entries do
    if before.node? p ≠ some node then
      match node with
      | .directory => IO.FS.createDirAll (placeText p)
      | .file content _ => IO.FS.writeBinFile (placeText p) ⟨content.toArray⟩

def levelNumber : LogLevel → Nat
  | .info => 20
  | .warning => 30
  | .error => 40

def levelText : LogLevel → String
  | .info => "INFO"
  | .warning => "WARNING"
  | .error => "ERROR"

/-- Shows the log from a level on, then the complaints, then what was printed. -/
def showAll (level : Nat) (w : Workspace) : IO Unit := do
  for r in w.log do
    if level ≤ levelNumber r.level then IO.eprintln (levelText r.level ++ " - " ++ r.text)
  for line in w.complaints do IO.eprintln line
  for line in w.printed do IO.println line

def failureText : Failure → String
  | .diagnosed _ d => d.userMessage
  | .disk e path => e.message path
  | .astray e => e.text
  | .undecodable path => path ++ " is not UTF-8"
  | .pattern fault => fault.message
  | .endless => SignatureFault.endless.message

def usage : String :=
  "usage: [--log-level LEVEL] il PATH... [-o DIR] [-k BOOL] [-c BOOL] [--search-pattern GLOB] " ++
    "[--ildasm-path PATH] [--member-order ORDER]\n       [--log-level LEVEL] diagnose"

/-- Runs a command on disk; gives the status. -/
def run (args : List String) (i : CommandLine.Invocation) : IO UInt32 := do
  let w ← workspace args
  let level := match (Settings.effectiveLogLevel i.logLevel.text?).run w with
    | .ok level _ => level
    | .error _ _ => Settings.defaultLogLevel
  match (CommandLine.run i).run w with
  | .ok status after =>
    save w.tree after.tree
    showAll level after
    return UInt32.ofNat status
  | .error e after =>
    save w.tree after.tree
    showAll level after
    IO.eprintln (failureText e)
    return 1

end ILDump.Program

/-- Reads the command line and runs its command. -/
def main (args : List String) : IO UInt32 := do
  match ILDump.CommandLine.read args with
  | .ok i => ILDump.Program.run args i
  | .error stop =>
    (if stop = .help then IO.println else IO.eprintln) ILDump.Program.usage
    return UInt32.ofNat (ILDump.CommandLine.stopStatus stop)
