import ILDump.CommandLine.Grammar
import ILDump.Listing.MemberOrder
import ILDump.Search.Pattern
import ILDump.Settings.Lookup

/-!
# The command line

There are two commands: one writes listings, the other tells about the tool and the
settings. Options in front of the command are for both.
-/

namespace ILDump.CommandLine

open ILDump.Arguments

/-- The text that an option was given. An option whose value is a double dash was given
    without one. -/
inductive Given where
  | absent
  | text (s : String)
  | valueless
deriving DecidableEq, Repr

namespace Given

def text? : Given → Option String
  | text s => some s
  | _ => none

/-- What an option was given by its values. -/
def ofValues (values : List String) : Given :=
  (values.head?.map text).getD valueless

def toValue : Given → Value
  | absent => .null
  | text s => .text s
  | valueless => .list []

end Given

structure ListingOptions where
  paths : List String := []
  outputDirectory : Given := .absent
  keepStructure : Bool := true
  /-- Whether this disassembler replaces what the tool writes. -/
  replaces : Bool := true
  pattern : Given := .text SearchPattern.everything
  toolPath : Given := .absent
  memberOrder : Given := .absent
deriving DecidableEq, Repr

inductive Command where
  | list (options : ListingOptions)
  | diagnose
deriving DecidableEq, Repr

structure Invocation where
  logLevel : Given
  command : Command
deriving DecidableEq, Repr

def listName : String := "il"

def diagnoseName : String := "diagnose"

def textFlag {ω : Type} (names : List String) (put : Given → ω → ω) : Flag ω where
  names := names
  arity := .one
  apply values result := .ok (put (.ofValues values) result)

def truthFlag {ω : Type} (names : List String) (put : Bool → ω → ω) : Flag ω where
  names := names
  arity := .atMostOne
  apply values result :=
    match values.head? with
    | none => .ok (put true result)
    | some value =>
      match Settings.parseBool? value with
      | some b => .ok (put b result)
      | none => .error .misuse

def orderFlag : Flag ListingOptions where
  names := ["--member-order"]
  arity := .one
  apply values result :=
    if values.all fun value => (MemberOrder.ofText? value).isSome then
      .ok { result with memberOrder := .ofValues values }
    else .error .misuse

def listGrammar : Grammar ListingOptions where
  flags := [
    helpFlag _,
    textFlag ["--output-directory", "-o"] fun g o => { o with outputDirectory := g },
    truthFlag ["--keep-directory-struct", "-k"] fun b o => { o with keepStructure := b },
    truthFlag ["--use-ilspy-cover", "-c"] fun b o => { o with replaces := b },
    textFlag ["--search-pattern", "--search-Pattern"] fun g o => { o with pattern := g },
    textFlag ["--ildasm-path"] fun g o => { o with toolPath := g },
    orderFlag]
  operands := .oneOrMore fun values o => .ok { o with paths := values }

def diagnoseGrammar : Grammar Unit where
  flags := [helpFlag _]
  operands := .nothing

def readCommand : List String → Except Stop Command
  | [] => .error .misuse
  | name :: args =>
    if name = listName then (listGrammar.read {} args).map .list
    else if name = diagnoseName then (diagnoseGrammar.read () args).map fun _ => .diagnose
    else .error .misuse

/-- What is known before the command is: the log level, and then the command. -/
structure Draft where
  logLevel : Given
  command? : Option Command

def grammar : Grammar Draft where
  flags := [helpFlag _, textFlag ["--log-level"] fun g d => { d with logLevel := g }]
  operands := .command fun values d => do
    return { d with command? := some (← readCommand values) }

def read (args : List String) : Except Stop Invocation := do
  let d ← grammar.read ⟨.absent, none⟩ args
  match d.command? with
  | some command => return ⟨d.logLevel, command⟩
  | none => throw .misuse

/-- The status of a run that reading arguments stopped. -/
def stopStatus : Stop → Nat
  | .help => 0
  | .misuse => 2

def Invocation.toValue (i : Invocation) : Value :=
  let level := ("log_level", i.logLevel.toValue)
  match i.command with
  | .diagnose => .object [level, ("command", .text diagnoseName)]
  | .list o => .object [
      level, ("command", .text listName), ("paths", .list (o.paths.map .text)),
      ("output_directory", o.outputDirectory.toValue),
      ("keep_directory_struct", .bool o.keepStructure), ("use_ilspy_cover", .bool o.replaces),
      ("search_pattern", o.pattern.toValue), ("ildasm_path", o.toolPath.toValue),
      ("member_order", o.memberOrder.toValue)]

end ILDump.CommandLine
