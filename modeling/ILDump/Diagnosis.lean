import ILDump.Value

/-!
# Diagnoses

A diagnosis says what went wrong in a form for people and for programs: a code, a
message, the reason, what may help, and details. Each kind of trouble the program knows
has its own function here, so that every wording stands in this one place.
-/

namespace ILDump

/-- The kinds of trouble. -/
inductive TroubleCode where
  | inputNotFound
  | toolNotFound
  | metadataUnreadable
  | disassemblyFailed
  | outputWriteFailed
  | parameterInvalid
deriving DecidableEq, Repr

namespace TroubleCode

def text : TroubleCode → String
  | inputNotFound => "INPUT_NOT_FOUND"
  | toolNotFound => "TOOL_NOT_FOUND"
  | metadataUnreadable => "METADATA_UNREADABLE"
  | disassemblyFailed => "DISASSEMBLY_FAILED"
  | outputWriteFailed => "OUTPUT_WRITE_FAILED"
  | parameterInvalid => "PARAMETER_INVALID"

def all : List TroubleCode :=
  [inputNotFound, toolNotFound, metadataUnreadable, disassemblyFailed, outputWriteFailed,
    parameterInvalid]

def ofText? (s : String) : Option TroubleCode :=
  all.find? fun c => c.text = s

theorem ofText?_text (c : TroubleCode) : ofText? c.text = some c := by
  cases c <;> decide

end TroubleCode

/-- What went wrong, why, and what may help. -/
structure Diagnosis where
  code : TroubleCode
  message : String
  reason? : Option String := none
  suggestions : List String := []
  /-- Further details by name, in order. -/
  details : List (String × Value) := []
deriving Repr

namespace Diagnosis

def toValue (d : Diagnosis) : Value :=
  .object [
    ("error", .text d.code.text),
    ("message", .text d.message),
    ("reason", d.reason?.elim .null .text),
    ("suggestions", .list (d.suggestions.map .text)),
    ("debug_info", .object d.details)]

/-- The lines for a reader: headline, reason, numbered suggestions, details. An empty
    reason is left out. -/
def userLines (d : Diagnosis) : List String :=
  ["Error [" ++ d.code.text ++ "]: " ++ d.message] ++
    (match d.reason? with
      | some reason => if reason = "" then [] else ["Reason: " ++ reason]
      | none => []) ++
    (if d.suggestions.isEmpty then []
      else "\nSuggested actions:" ::
        d.suggestions.mapIdx fun i s => "  " ++ toString (i + 1) ++ ". " ++ s) ++
    (if d.details.isEmpty then []
      else "\nDebug information:" ::
        d.details.map fun p => "  " ++ p.1 ++ ": " ++ p.2.plain)

def userMessage (d : Diagnosis) : String :=
  String.intercalate "\n" d.userLines

/-- The text or, if it is missing or empty, another one. -/
private def orElse (text? : Option String) (other : String) : String :=
  match text? with
  | some text => if text = "" then other else text
  | none => other

def inputNotFound (path : String) : Diagnosis := {
  code := .inputNotFound
  message := "The " ++ path ++ " file or directory cannot be found."
  reason? := some "The path is neither an existing file nor an existing directory"
  suggestions := [
    "Check the path for typos; relative paths are resolved from the current directory",
    "Quote paths that contain spaces",
    "Pass a directory to scan it recursively with --search-pattern"]
  details := [("path", .text path)] }

def toolNotFound (tool : String) (searched : List String) : Diagnosis := {
  code := .toolNotFound
  message := "The " ++ tool ++ " file cannot be found."
  reason? := some "The external disassembler is required before any file is processed"
  suggestions := [
    "Copy ildasm.exe into the current working directory",
    "Pass the tool location explicitly with --ildasm-path",
    "Set MSIL_COMPARATOR_ILDASM in the environment or a .env file",
    "Install ildasm on PATH (e.g. 'dotnet tool install -g dotnet-ildasm')"]
  details :=
    ("tool", .text tool) ::
      (if searched.isEmpty then [] else [("searched", .list (searched.map .text))]) }

/-- A file whose metadata cannot be read. -/
def metadataUnreadable (path : String) (detail? : Option String) : Diagnosis := {
  code := .metadataUnreadable
  message := "Cannot read CLI metadata from " ++ path
  reason? := some (orElse detail? "The metadata root or table stream is missing or corrupt")
  suggestions := [
    "Verify the file is a complete, unmodified .NET assembly",
    "Run with -c false to keep only the external disassembler output",
    "Check the log output for the table or heap that failed to parse"]
  details := [("path", .text path)] }

def disassemblyFailed (path : String) (detail? member? : Option String) : Diagnosis := {
  code := .disassemblyFailed
  message := "Failed to disassemble " ++ path
  reason? := some (orElse detail? "The IL renderer raised an unexpected error")
  suggestions := [
    "Run with --log-level DEBUG to see which member failed",
    "Run with -c false to keep only the external disassembler output"]
  details :=
    ("path", .text path) ::
      (match member? with
        | some member => if member = "" then [] else [("member", .text member)]
        | none => []) }

def outputWriteFailed (path : String) (detail? : Option String) : Diagnosis := {
  code := .outputWriteFailed
  message := "Cannot write " ++ path
  reason? := detail?
  suggestions := [
    "Check that the output directory is writable",
    "Close editors or viewers that lock the .il file",
    "Choose another location with -o"]
  details := [("path", .text path)] }

def parameterInvalid (name : String) (value : Value) (expected : String) : Diagnosis := {
  code := .parameterInvalid
  message := "Invalid value for " ++ name ++ ": " ++ value.display
  reason? := some ("Expected " ++ expected)
  suggestions := ["Provide " ++ expected ++ " for " ++ name]
  details := [("parameter_name", .text name), ("provided_value", value)] }

end Diagnosis

end ILDump
