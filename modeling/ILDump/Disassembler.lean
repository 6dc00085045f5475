import ILDump.Workspace.Session
import ILDump.Module.Loader
import ILDump.Listing.Writer

/-!
# The disassembler

Reads a file with managed code and writes its listing. Whatever goes wrong while reading
is told apart by where it was: a missing or unusable file has unreadable metadata, a bad
signature or method body is a failed disassembly. Names without end are neither. Nothing is
written unless everything could be read.
-/

namespace ILDump.Disassembler

def stageName : String := "ilspy"

/-- The rank of this stage: behind the external tool. -/
def stageRank : Int := 20

/-- The failure of a file that cannot be loaded. Names without end are told as they are, and not
    as something that is wrong with the file. -/
def loadFailure (path : String) (f : ModuleFault) : Failure :=
  if f = .endless then .endless
  else if f.isInContents then
    .diagnosed .disassembly (.disassemblyFailed path (some (f.message path)) none)
  else
    .diagnosed .disassembly (.metadataUnreadable path (some (f.message path)))

/-- Loads a file that is decoded in some way. -/
def loadWith (decoders : Decoders) (source : Path) : Session ModuleImage := do
  let path := source.text
  match ← Session.read source with
  | .error .notFound =>
    throw (.diagnosed .disassembly
      (.metadataUnreadable path (some ("File vanished: " ++ DiskError.notFound.message path))))
  | .error e => throw (.disk e path)
  | .ok bytes =>
    match ModuleImage.ofBytesWith decoders path bytes with
    | .ok image => return image
    | .error f => throw (loadFailure path f)

def load (source : Path) : Session ModuleImage :=
  loadWith .standard source

/-- Writes the listing of a file to another, replacing it. -/
def disassembleWith (decoders : Decoders) (order : MemberOrder) (source destination : Path) :
    Session Unit := do
  let image ← loadWith decoders source
  match ← Session.write destination (Utf8.encode (Listing.render order image)) with
  | none => return
  | some e =>
    let path := destination.text
    throw (.diagnosed .disassembly (.outputWriteFailed path (some (e.message path))))

def disassemble (order : MemberOrder) (source destination : Path) : Session Unit :=
  disassembleWith .standard order source destination

/-- Whether a file is an assembly, by what opens it. A file that is missing or no executable is
    none, with a warning. -/
def isAssemblyWith (file : Bytes → Except ContainerFault OpenedFile) (path : Path) :
    Session Bool := do
  match ← Session.read path with
  | .error .notFound =>
    Session.log .warning ("The " ++ path.text ++ " file cannot be found.")
    return false
  | .error e => throw (.disk e path.text)
  | .ok bytes =>
    match ILDump.isAssemblyWith file bytes with
    | .ok answer => return answer
    | .error _ =>
      Session.log .warning ("The " ++ path.text ++ " file is not an executable.")
      return false

def isAssembly (path : Path) : Session Bool :=
  isAssemblyWith OpenedFile.ofBytes path

end ILDump.Disassembler
