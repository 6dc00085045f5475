import ILDump.Disassembler
import ILDump.Pipeline.Run
import ILDump.Search.Below
import ILDump.Workspace.Session

/-!
# Runs on a workspace

A run in a session looks at the file tree, and its reports are printed.
-/

namespace ILDump.Pipeline

/-- What there is at a path, if that can be told. -/
def kindAt (t : Tree) (cwd : Place) (path : Path) : Except Failure (Option InputKind) :=
  match t.refusal? cwd path with
  | some e => .error (.disk e path.text)
  | none => .ok (
    if t.isFile cwd path then some .file
    else if t.isDirectory cwd path then some .directory
    else none)

def probe (path : Path) : Session (Option InputKind) :=
  Session.ask fun w => kindAt w.tree w.cwd path

/-- What a search finds, or that its pattern cannot be read. -/
def foundBelow (t : Tree) (cwd : Place) (root : Path) (pattern : String) :
    Except Failure (List Path) :=
  match SearchPattern.ofString pattern with
  | .error fault => .error (.pattern fault)
  | .ok pattern => .ok (t.filesBelow cwd root pattern)

def search (root : Path) (pattern : String) : Session (List Path) :=
  Session.ask fun w => foundBelow w.tree w.cwd root pattern

/-- A workspace as the surroundings of a run, with some way of opening files. -/
def workspaceOpening (file : Bytes → Except ContainerFault OpenedFile) :
    Surroundings Workspace where
  probe := probe
  search := search
  isAssembly := Disassembler.isAssemblyWith file
  makeDirectories := Session.makeDirectories
  log := Session.log
  report := Session.print

def workspace : Surroundings Workspace :=
  workspaceOpening OpenedFile.ofBytes

/-- The disassembler as a stage, for files that are decoded in some way. -/
def disassemblerWith (decoders : Decoders) (order : MemberOrder) : Stage Workspace where
  name := Disassembler.stageName
  rank := Disassembler.stageRank
  prepare := return Disassembler.disassembleWith decoders order

def disassembler (order : MemberOrder) : Stage Workspace :=
  disassemblerWith .standard order

end ILDump.Pipeline
