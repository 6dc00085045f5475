import ILDump.CommandLine.Options
import ILDump.Pipeline.Local
import ILDump.Tool.Local

/-!
# Running commands

An option wins over the setting of the same meaning unless it is empty. The command for
listings runs the external tool and then, unless that is unwanted, this disassembler. A
diagnosis that ends a command is logged and shown, and the status is one. How programs are
started and how files are decoded may be chosen.
-/

namespace ILDump.CommandLine

/-- What commands leave to others: starting programs, opening files to see what they are, and
    decoding what is in them. -/
structure Externals where
  launch : Launcher
  file : Bytes → Except ContainerFault OpenedFile
  decoders : Decoders

def Externals.standard : Externals :=
  ⟨Launch.scripts, OpenedFile.ofBytes, .standard⟩

def memberOrder (given : Given) : Session MemberOrder := do
  let name := (← Settings.optionOr given.text? Settings.orderKey).getD MemberOrder.byName.text
  match MemberOrder.ofName? name with
  | some order => return order
  | none =>
    throw (.diagnosed .options (.parameterInvalid "member order" (.text name) MemberOrder.choices))

def stages (x : Externals) (o : ListingOptions) : Session (List (Stage Workspace)) := do
  let tool ← Tool.ofSettings o.toolPath.text? none
  let first := Tool.stage (Tool.workspaceWith x.launch) tool
  if o.replaces then
    return [first, Pipeline.disassemblerWith x.decoders (← memberOrder o.memberOrder)]
  else return [first]

/-- The working directory. It has to be there for listings that go there. -/
def workingDirectory (outputRoot? : Option String) : Session Path := do
  if outputRoot?.isNone then Session.ask Workspace.standing
  else return (← get).cwdPath

def list (x : Externals) (o : ListingOptions) : Session Unit := do
  let outputRoot? ← Settings.optionOr o.outputDirectory.text? Settings.outputKey
  let stages ← stages x o
  let plan := Pipeline.Plan.ofOptions (← workingDirectory outputRoot?)
    (outputRoot?.map Path.ofString) o.keepStructure (o.pattern.text?.getD "")
  let _ ← (Pipeline.workspaceOpening x.file).run plan stages (o.paths.map Path.ofString)

def disassemblerState (order : MemberOrder) : Value :=
  .object [
    ("backend", .text Disassembler.stageName), ("platform", .text Tool.platformName),
    ("member_order", .text order.text)]

def diagnose (x : Externals) : Session Unit := do
  let tool ← Tool.ofSettings none none
  let (toolState, _) ← Work.withFirst tool (Tool.diagnose (Tool.workspaceWith x.launch))
  let settings ← Settings.status
  Session.print (Value.json (.lines 2) (.object [
    ("backends", .list [toolState, disassemblerState .byName]),
    ("config", Settings.statusValue settings)]))

def runCommand (x : Externals) : Command → Session Unit
  | .list o => list x o
  | .diagnose => diagnose x

/-- Logs and shows a diagnosis that ends a command. -/
def conclude (d : Diagnosis) : Session Nat := do
  Session.log .error (d.code.text ++ ": " ++ d.message)
  Session.complain d.userMessage
  return 1

/-- Runs what the command line asks for; gives the status. -/
def runWith (x : Externals) (i : Invocation) : Session Nat := do
  let _ ← Settings.effectiveLogLevel i.logLevel.text?
  match ← (runCommand x i.command).unlessDiagnosed with
  | some d => conclude d
  | none => return 0

def run (i : Invocation) : Session Nat :=
  runWith .standard i

end ILDump.CommandLine
