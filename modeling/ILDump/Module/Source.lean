import ILDump.Metadata.Tables
import ILDump.Module.Fault

/-!
# Files with managed code

A file can be listed if it is an executable with a header for managed code and metadata
tables. It is an assembly if the tables name one. What opens a file and what reads a method
body may be chosen.
-/

namespace ILDump

/-- A file with managed code whose tables were found. -/
structure ModuleSource where
  executable : Executable
  header : ManagedHeader
  tables : Tables

/-- An executable that was opened: its header for managed code, if it has one, and with it
    the tables, if there are any. -/
structure OpenedFile where
  executable : Executable
  managed? : Option (ManagedHeader × Option Tables)

namespace OpenedFile

def ofBytes (bytes : Bytes) : Except ContainerFault OpenedFile := do
  let x ← Executable.ofBytes bytes
  let header? ← ManagedHeader.of? x
  return ⟨x, header?.map fun h => (h, (Streams.of? x h).map Tables.ofStreams)⟩

def source (f : OpenedFile) : Except ModuleFault ModuleSource :=
  match f.managed? with
  | none => .error .noManagedHeader
  | some (_, none) => .error .noTables
  | some (header, some tables) => .ok ⟨f.executable, header, tables⟩

end OpenedFile

/-- How files are decoded. -/
structure Decoders where
  file : Bytes → Except ModuleFault OpenedFile
  /-- The method body at an address. -/
  code : Executable → Nat → Except ModuleFault Code

namespace Decoders

/-- What opens a file and what reads a method body, each with faults of its own. -/
def ofReaders (file : Bytes → Except ContainerFault OpenedFile)
    (code : Executable → Nat → Except BodyFault Code) : Decoders where
  file bytes := (file bytes).mapError .container
  code x address := (code x address).mapError .body

def standard : Decoders :=
  ofReaders OpenedFile.ofBytes fun x address => Code.read x.dataAt? address

/-- Finds the tables of a file. -/
def source (d : Decoders) (bytes : Bytes) : Except ModuleFault ModuleSource := do
  let f ← d.file bytes
  f.source

end Decoders

def ModuleSource.ofBytes (bytes : Bytes) : Except ModuleFault ModuleSource :=
  Decoders.standard.source bytes

/-- Whether a file is an assembly, by what opens it: an executable with managed code whose
    tables name an assembly. -/
def isAssemblyWith (file : Bytes → Except ContainerFault OpenedFile) (bytes : Bytes) :
    Except ContainerFault Bool := do
  let f ← file bytes
  match f.source with
  | .ok source => return !source.tables.assemblies.isEmpty
  | .error _ => return false

def isAssembly (bytes : Bytes) : Except ContainerFault Bool :=
  isAssemblyWith OpenedFile.ofBytes bytes

end ILDump
