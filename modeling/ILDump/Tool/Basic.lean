import ILDump.Text.LineEnds
import ILDump.Text.Utf8
import ILDump.Unicode.Blank
import ILDump.Value
import ILDump.Workspace.Work

/-!
# The external tool

Another disassembler may write listings before this one does. It is looked for once: at
the place that was configured, and nowhere else if there is one; otherwise in the working
directory and then along the search path. A tool that was found stays the one to use.

What the tool writes is kept, whatever status it ends with. Only a missing tool is a
failure; all other trouble is logged.
-/

namespace ILDump

/-- How a started program came to its end, or why it was not started. -/
inductive ProgramEnd where
  /-- The program ended; a signal is a negative status. -/
  | finished (status : Int) (output errors : Bytes)
  | expired
  | refused (e : DiskError)
deriving Repr

/-- What the tool needs from its surroundings. -/
structure ToolHost (σ : Type) where
  cwd : Work σ Path
  isFile : Path → Work σ Bool
  /-- The first program of a name along the search path. -/
  findOnSearchPath : String → Work σ (Option String)
  /-- Starts a program with its arguments, and stops it after so many seconds. -/
  start : List String → Option Int → Work σ ProgramEnd
  log : LogLevel → String → Work σ Unit

/-- The external tool. -/
structure Tool where
  configured? : Option Path
  /-- The seconds that one run may take, if they are limited. -/
  timeout? : Option Int
  /-- Where the tool was found. -/
  resolved? : Option Path
deriving DecidableEq, Repr

/-- Work with the tool and its surroundings. -/
abbrev ToolWork (σ α : Type) : Type :=
  Work (Tool × σ) α

namespace Tool

def stageName : String := "ildasm"

/-- The rank of this stage: the first one. -/
def stageRank : Int := 10

def programName : String := "ildasm.exe"

def searchedNames : List String := ["ildasm", programName]

def searchPathWord : String := "PATH"

def platformName : String := "Linux"

/-- The seconds that the tool may take to tell its version. -/
def versionTimeout : Int := 10

/-- A tool that was not looked for yet. Without a limit, or with a limit of zero, a run may
    take any time. -/
def ofOptions (configured? : Option Path) (timeout : Int) : Tool :=
  ⟨configured?, if timeout = 0 then none else some timeout, none⟩

def command (tool : Tool) (source destination : Path) : List String :=
  [(tool.resolved?.map Path.text).getD "None", source.text, "/all", "/out=" ++ destination.text]

def printedText (bs : Bytes) : String :=
  String.ofList (LineEnds.unify (Utf8.decodeLossy bs).toList)

/-- The first of two outputs that has anything, without blanks around it. -/
def detail (first second : Bytes) : String :=
  Unicode.trim (printedText (if first.isEmpty then second else first))

/-- How much of a detail is logged. -/
def detailLimit : Nat := 200

def missing (searched : List String) : Failure :=
  .diagnosed .tool (.toolNotFound programName searched)

section

variable {σ : Type} (h : ToolHost σ)

def log (level : LogLevel) (text : String) : ToolWork σ Unit :=
  (h.log level text).onSecond

def resolve (p : Path) : ToolWork σ Unit :=
  modify fun s => ({ s.1 with resolved? := some p }, s.2)

/-- The place where the tool is looked for before the search path. -/
def candidate (tool : Tool) : ToolWork σ Path := do
  match tool.configured? with
  | some p => return p
  | none => return (← h.cwd.onSecond).child programName

/-- Looks for the names of the program along the search path. -/
def findAlong : List String → ToolWork σ (Option Path)
  | [] => return none
  | name :: rest => do
    match ← (h.findOnSearchPath name).onSecond with
    | some found =>
      resolve (Path.ofString found)
      log h .info ("Found ildasm in PATH: " ++ found)
      return some (Path.ofString found)
    | none => findAlong rest

/-- Looks for the tool, unless it was found before. -/
def find : ToolWork σ (Option Path) := do
  let tool := (← get).1
  match tool.resolved? with
  | some p => return some p
  | none =>
    let here ← candidate h tool
    if ← (h.isFile here).onSecond then
      resolve here
      log h .info ("Found ildasm at: " ++ here.text)
      return some here
    else
      match tool.configured? with
      | some p =>
        log h .warning ("Configured ildasm not found: " ++ p.text)
        return none
      | none =>
        match ← findAlong h searchedNames with
        | some p => return some p
        | none =>
          let cwd ← h.cwd.onSecond
          log h .warning (programName ++ " not found in " ++ cwd.text ++ " or " ++ searchPathWord)
          return none

def isAvailable : ToolWork σ Bool := do
  return (← find h).isSome

/-- Looks for the tool before the first file. -/
def prepare : ToolWork σ Unit := do
  match ← find h with
  | some _ => return
  | none =>
    let tool := (← get).1
    let here ← candidate h tool
    throw (missing (here.text :: if tool.configured?.isNone then [searchPathWord] else []))

/-- Logs how a run for a file ended. A tool that is missing after all is a failure. -/
def conclude (tool : Tool) (source : Path) : ProgramEnd → ToolWork σ Unit
  | .finished status output errors => do
    if status ≠ 0 then
      let text := (detail errors output).toList.take detailLimit
      log h .warning ("ildasm exited with " ++ toString status ++ " for " ++ source.name ++ ": " ++
        String.ofList text)
  | .expired =>
    log h .warning ("ildasm timed out after " ++ toString (tool.timeout?.getD 0) ++ "s on " ++
      source.name ++ "; keeping partial output")
  | .refused .notFound => throw (missing (tool.resolved?.toList.map Path.text))
  | .refused e =>
    log h .warning ("ildasm could not be started for " ++ source.name ++ ": " ++
      e.message ((tool.resolved?.map Path.text).getD ""))

/-- Has the tool write the listing of a file. A tool that was found before has to be there
    still. -/
def disassemble (source destination : Path) : ToolWork σ Unit := do
  match (← get).1.resolved? with
  | none => prepare h
  | some p =>
    if !(← (h.isFile p).onSecond) then throw (missing [p.text])
  let tool := (← get).1
  conclude h tool source (← (h.start (tool.command source destination) tool.timeout?).onSecond)

def version : ToolWork σ (Option String) := do
  match ← find h with
  | none => return none
  | some p =>
    match ← (h.start [p.text, "/?"] (some versionTimeout)).onSecond with
    | .finished _ output errors =>
      let text := (detail output errors).toList
      return if text.isEmpty then none
        else some (String.ofList (text.takeWhile fun c => !Unicode.isLineBreak c))
    | .expired =>
      log h .error ("Failed to get ildasm version: Command '[" ++ Quoted.display p.text ++
        ", '/?']' timed out after " ++ toString versionTimeout ++ " seconds")
      return none
    | .refused e =>
      log h .error ("Failed to get ildasm version: " ++ e.message p.text)
      return none

def diagnose : ToolWork σ Value := do
  let found? ← find h
  let version? ← match found? with
    | some _ => version h
    | none => pure none
  let tool := (← get).1
  let text := fun (s? : Option String) => s?.elim Value.null Value.text
  return .object [
    ("backend", .text stageName), ("platform", .text platformName),
    ("configured_path", text (tool.configured?.map Path.text)),
    ("ildasm_found", .bool found?.isSome), ("ildasm_path", text (found?.map Path.text)),
    ("ildasm_version", text version?), ("timeout", tool.timeout?.elim .null .integer)]

end

end Tool

end ILDump
