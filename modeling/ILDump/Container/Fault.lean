import ILDump.Text.Quoted

/-!
# Faults of an executable file

Why a file is not an executable, or why a place in it cannot be read.
-/

namespace ILDump

/-- Formats of executables that share the first header. -/
inductive ForeignFormat where
  | ne
  | le
  | lx
  | te
deriving DecidableEq, Repr

def ForeignFormat.text : ForeignFormat → String
  | ne => "NE"
  | le => "LE"
  | lx => "LX"
  | te => "TE"

/-- Why a file is not an executable. -/
inductive ContainerFault where
  | shortDosHeader
  | zmExecutable
  | noDosMagic
  | badNewHeaderOffset
  | noNewHeader
  | foreignFormat (format : ForeignFormat)
  | badSignature
  | noFileHeader
  | noOptionalHeader
  | shortSectionHeader
  /-- No section and no part of the file lies at an address. -/
  | unmappedAddress
deriving DecidableEq, Repr

namespace ContainerFault

def text : ContainerFault → String
  | shortDosHeader => "Unable to read the DOS Header, possibly a truncated file."
  | zmExecutable => "Probably a ZM Executable (not a PE file)."
  | noDosMagic => "DOS Header magic not found."
  | badNewHeaderOffset => "Invalid e_lfanew value, probably not a PE file"
  | noNewHeader => "NT Headers not found."
  | foreignFormat format =>
    "Invalid NT Headers signature. Probably a " ++ format.text ++ " file"
  | badSignature => "Invalid NT Headers signature."
  | noFileHeader => "File Header missing"
  | noOptionalHeader => "No Optional Header found, invalid PE32 or PE32+ file."
  | shortSectionHeader => "Data length less than expected header length."
  | unmappedAddress => "data at RVA can't be fetched. Corrupt header?"

/-- The wording in quotes, as it is reported. -/
def message (f : ContainerFault) : String :=
  Quoted.display f.text

end ContainerFault

end ILDump
