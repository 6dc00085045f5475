import ILDump.Settings.EnvFile
import ILDump.Unicode.Case
import ILDump.Unicode.Decimal
import ILDump.Workspace.Session

/-!
# Settings

A setting is an environment variable or else an entry of the nearest file of settings,
in the working directory or one of the four directories above it. That file is read the
first time a setting is not in the environment, and is not looked at again until the
settings are forgotten. Without a working directory there is nowhere to look for it, and that
is a failure.
-/

namespace ILDump.Settings

def fileName : String := ".env"

/-- How many directories are searched for a file of settings. -/
def searchDepth : Nat := 5

/-- The nearest file of settings in a directory or those above it. The search ends early where
    it cannot be told whether there is one. -/
def nearestFile (t : Tree) : Nat → Place → Except Failure (Option Path)
  | 0, _ => .ok none
  | depth + 1, here =>
    let file : Path := ⟨.root, here ++ [fileName]⟩
    match t.refusal? [] file with
    | some e => .error (.disk e file.text)
    | none =>
      if t.isFile [] file then .ok (some file)
      else if here.isEmpty then .ok none
      else nearestFile t depth here.dropLast

/-- The file of settings that is nearest to the working directory. -/
def fileFor (w : Workspace) : Except Failure (Option Path) :=
  w.standing >>= fun here => nearestFile w.tree searchDepth here.parts

/-- Reads a file of settings. A file that cannot be read has none, with a warning; a file
    that is not UTF-8 is a failure. -/
def readFrom (path : Path) : Session (List (String × String)) := do
  match ← Session.read path with
  | .error e =>
    Session.log .warning ("Failed to parse .env file: " ++ e.message path.text)
    return []
  | .ok bytes =>
    match Utf8.decode? bytes with
    | none => throw (.undecodable path.text)
    | some text =>
      for number in EnvFile.invalidLines text do
        Session.log .warning (EnvFile.invalidMessage number)
      return EnvFile.settings text

/-- Reads the nearest file of settings, unless that was done before. -/
def load : Session Unit := do
  if (← get).settings?.isNone then
    match ← Session.ask fileFor with
    | some path =>
      Session.log .info ("Loading configuration from: " ++ path.text)
      let settings ← readFrom path
      modify fun w => { w with settings? := some settings }
    | none => modify fun w => { w with settings? := some [] }

/-- Forgets the settings, so that the next look-up reads a file again. -/
def forget : Session Unit :=
  modify fun w => { w with settings? := none }

def fileValue? (w : Workspace) (key : String) : Option String :=
  ((w.settings?.getD []).find? fun s => s.1 = key).map (·.2)

def get? (key : String) : Session (Option String) := do
  match (← get).environmentValue? key with
  | some value => return some value
  | none =>
    load
    return fileValue? (← get) key

/-- The value of a setting, or another one if it is not set. -/
def getOr (key : String) (other? : Option String) : Session (Option String) := do
  return (← get? key) <|> other?

/-- The number that a setting stands for, or another one if it is none. -/
def getInt (key : String) (other : Int) : Session Int := do
  match ← get? key with
  | some value => return (Unicode.parseInt? value).getD other
  | none => return other

def toolKey : String := "MSIL_COMPARATOR_ILDASM"

/-- The setting of the seconds that a tool may run. -/
def timeoutKey : String := "MSIL_COMPARATOR_ILDASM_TIMEOUT"

def outputKey : String := "MSIL_COMPARATOR_OUTPUT_DIR"

def orderKey : String := "MSIL_COMPARATOR_MEMBER_ORDER"

def logLevelKey : String := "MSIL_COMPARATOR_LOG_LEVEL"

/-- All settings with what they are for. -/
def keys : List (String × String) := [
  (toolKey, "Path to the external IL disassembler (default: ./ildasm.exe, then PATH)"),
  (timeoutKey, "Timeout for one external disassembler run in seconds (0 = none)"),
  (outputKey, "Default output directory for IL files"),
  (orderKey, "Member ordering for the in-process disassembler (name, declaration, token)"),
  (logLevelKey, "Logging level (DEBUG, INFO, WARNING, ERROR)")]

/-- Where a setting comes from. -/
inductive Origin where
  | environment
  | file
deriving DecidableEq, Repr

def Origin.text : Origin → String
  | environment => "environment"
  | file => ".env file"

/-- A setting with its origin and value, if it is set. -/
structure Status where
  key : String
  found? : Option (Origin × String)
deriving Repr

def statusOf (w : Workspace) (key : String) : Status :=
  match w.environmentValue? key, fileValue? w key with
  | some value, _ => ⟨key, some (.environment, value)⟩
  | none, some value => ⟨key, some (.file, value)⟩
  | none, none => ⟨key, none⟩

def status : Session (List Status) := do
  load
  let w ← get
  return keys.map fun k => statusOf w k.1

def statusValue (ss : List Status) : Value :=
  .object (ss.map fun s => (s.key, .object (
    match s.found? with
    | some (origin, value) =>
      [("set", .bool true), ("source", .text origin.text), ("value", .text value)]
    | none => [("set", .bool false), ("source", .null), ("value", .null)])))

def trueWords : List String := ["true", "1", "yes", "on"]

def falseWords : List String := ["false", "0", "no", "off"]

/-- Reads a truth value in any letter case, with blanks around it. -/
def parseBool? (text : String) : Option Bool :=
  let word := Unicode.lower (Unicode.trim text)
  if trueWords.contains word then some true
  else if falseWords.contains word then some false
  else none

/-- Says that a text is no truth value. -/
def notBoolMessage (text : String) : String :=
  "Not a boolean value: " ++ Quoted.display text

/-- The numbers of the log levels. -/
def logLevels : List (String × Nat) := [
  ("CRITICAL", 50), ("FATAL", 50), ("ERROR", 40), ("WARN", 30), ("WARNING", 30), ("INFO", 20),
  ("DEBUG", 10), ("NOTSET", 0)]

/-- The level of a run without another one. -/
def defaultLogLevel : Nat := 20

/-- The number of a log level, by its name in any letter case. -/
def logLevel (name : String) : Nat :=
  ((logLevels.find? fun l => l.1 = Unicode.upper name).map (·.2)).getD defaultLogLevel

/-- The first text that is there and not empty. -/
def firstNonempty? : List (Option String) → Option String
  | [] => none
  | some s :: rest => if s = "" then firstNonempty? rest else some s
  | none :: rest => firstNonempty? rest

/-- An option if it is given and not empty, or else a setting if it is not empty. -/
def optionOr (option? : Option String) (key : String) : Session (Option String) := do
  match firstNonempty? [option?] with
  | some value => return some value
  | none => return firstNonempty? [← get? key]

/-- The log level for a run. -/
def effectiveLogLevel (option? : Option String) : Session Nat := do
  return logLevel ((← optionOr option? logLevelKey).getD "INFO")

end ILDump.Settings
