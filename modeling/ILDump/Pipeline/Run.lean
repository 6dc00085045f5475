import ILDump.Pipeline.Destination
import ILDump.Pipeline.Stage

/-!
# Runs

A run takes its inputs one after the other. All files of an input are checked when they
are found; each is checked again right before the stages get it, since it may have
changed. A stage that misses its tool skips the file, any other failure ends the run. A
file that went through all stages is reported and recorded.

Nothing is looked at before all stages are prepared.
-/

namespace ILDump.Pipeline

/-- What a run needs from its surroundings. -/
structure Surroundings (σ : Type) where
  probe : Path → Work σ (Option InputKind)
  /-- The files below a directory that match a pattern, in any order. -/
  search : Path → String → Work σ (List Path)
  isAssembly : Path → Work σ Bool
  /-- Creates a directory and all that are missing above it. -/
  makeDirectories : Path → Work σ Unit
  log : LogLevel → String → Work σ Unit
  report : String → Work σ Unit

/-- What is asked for. -/
structure Plan where
  cwd : Path
  outputRoot : Path
  keepStructure : Bool
  pattern : String
deriving DecidableEq, Repr

/-- A file that went through all stages. -/
structure Record where
  source : Path
  destination : Path
deriving DecidableEq, Repr

/-- The report of a file. -/
def Record.line (r : Record) : String :=
  "ildasm " ++ r.source.text ++ " to " ++ r.destination.text

namespace Plan

/-- A plan in which what is not said is as usual: listings go to the working directory, the
    structure is kept, and every name matches. -/
def ofOptions (cwd : Path) (outputRoot? : Option Path) (keepStructure : Bool) (pattern : String) :
    Plan where
  cwd := cwd
  outputRoot := outputRoot?.getD cwd
  keepStructure := keepStructure
  pattern := if pattern = "" then SearchPattern.everything else pattern

end Plan

namespace Surroundings

variable {ρ σ : Type} (s : Surroundings σ) (plan : Plan)

/-- The surroundings of a state that is the second half of a pair. -/
def onSecond : Surroundings (ρ × σ) where
  probe p := (s.probe p).onSecond
  search p pattern := (s.search p pattern).onSecond
  isAssembly p := (s.isAssembly p).onSecond
  makeDirectories p := (s.makeDirectories p).onSecond
  log level text := (s.log level text).onSecond
  report line := (s.report line).onSecond

/-- Looks at a path, which has to lead to a file or a directory. -/
def input (path : Path) : Work σ Input := do
  match ← s.probe path with
  | some kind => return ⟨path, kind⟩
  | none => throw (.diagnosed .input (.inputNotFound path.text))

/-- The paths that lead to assemblies. -/
def assemblies : List Path → Work σ (List Path)
  | [] => return []
  | path :: rest => do
    let accepted ← s.isAssembly path
    let others ← assemblies rest
    return if accepted then path :: others else others

/-- The files of an input, sorted by path. -/
def files (root : Input) : Work σ (List Path) := do
  match root.kind with
  | .file => return [root.path]
  | .directory =>
    let paths := (← s.search root.path plan.pattern).mergeSort Path.le
    s.log .info ("Found " ++ toString paths.length ++ " file(s) matching '" ++ plan.pattern ++
      "' in " ++ root.path.text)
    return paths

/-- The assemblies of an input. -/
def discover (root : Input) : Work σ (List Candidate) := do
  let paths ← s.assemblies (← s.files plan root)
  return paths.map fun path => ⟨path, root⟩

/-- Takes a file through all stages. A file that was skipped gives no record. -/
def dispatch (stages : List (StageWork σ)) (c : Candidate) : Work σ (Option Record) := do
  if ← s.isAssembly c.path then
    let destination := c.destination plan.cwd plan.outputRoot plan.keepStructure
    s.makeDirectories destination.parent
    match ← (Stage.runAll c.path destination stages).unlessToolMissing with
    | some d =>
      s.log .error ("Skipping " ++ c.path.text ++ ": " ++ d.message)
      return none
    | none =>
      let record : Record := ⟨c.path, destination⟩
      s.report record.line
      return some record
  else
    s.log .warning ("Skipping " ++ c.path.text ++ ": no longer a .NET assembly")
    return none

def dispatchAll (stages : List (StageWork σ)) : List Candidate → Work σ (List Record)
  | [] => return []
  | c :: rest => do
    let record? ← s.dispatch plan stages c
    return record?.toList ++ (← dispatchAll stages rest)

def processAll (stages : List (StageWork σ)) : List Path → Work σ (List Record)
  | [] => return []
  | path :: rest => do
    let root ← s.input path
    s.log .info ("Processing " ++ root.kind.text ++ " " ++ root.path.text)
    let records ← s.dispatchAll plan stages (← s.discover plan root)
    return records ++ (← processAll stages rest)

/-- Prepares all stages and takes all inputs through them. -/
def run (stages : List (Stage σ)) (inputs : List Path) : Work σ (List Record) := do
  let ready ← Stage.prepareAll (Stage.inRankOrder stages)
  let records ← s.processAll plan ready inputs
  s.log .info ("Disassembled " ++ toString records.length ++ " assembly file(s)")
  return records

end Surroundings

end ILDump.Pipeline
