import ILDump.Pipeline.Stage
import ILDump.Settings.Lookup
import ILDump.Tool.Launch

/-!
# The tool on a workspace

The tool is looked for in the file tree and started there. Its place and its time limit
come from options or else from the settings.
-/

namespace ILDump.Tool

/-- A workspace as the surroundings of the tool, with some way of starting programs. -/
def workspaceWith (launch : Launcher) : ToolHost Workspace where
  cwd := Session.ask Workspace.standing
  isFile p := Session.ask fun w => w.hasFile p
  findOnSearchPath name := return Launch.findOnSearchPath (← get) name
  start command timeout? := do
    let w ← get
    let (tree, result) := launch w timeout? command
    set { w with tree }
    return result
  log := Session.log

def workspace : ToolHost Workspace :=
  workspaceWith Launch.scripts

/-- The tool for options and settings. -/
def ofSettings (path? : Option String) (timeout? : Option Int) : Session Tool := do
  let configured? ← Settings.optionOr path? Settings.toolKey
  let timeout ← match timeout? with
    | some t => pure t
    | none => Settings.getInt Settings.timeoutKey 0
  return ofOptions (configured?.map Path.ofString) timeout

/-- The tool as a stage. Once prepared it is the same tool for all files. -/
def stage {σ : Type} (h : ToolHost σ) (tool : Tool) : Stage σ where
  name := stageName
  rank := stageRank
  prepare := do
    let (_, tool) ← Work.withFirst tool (prepare h)
    return fun source destination => do
      let _ ← Work.withFirst tool (disassemble h source destination)

end ILDump.Tool
