import ILDump.Text.Digits

/-!
# Faults of a signature

Everything that can be wrong with a signature blob, each with what its message names. Reading
one names the types in it, and that may lead back to where it came from.
-/

namespace ILDump

/-- Why a signature could not be read. -/
inductive SignatureFault where
  /-- The blob ends at this offset, where another byte is needed. -/
  | truncated (offset : Nat)
  /-- A compressed integer starts with a byte whose top three bits are set. -/
  | badLeadByte (lead : UInt8)
  /-- A coded type token carries the one tag that selects no table. -/
  | badTypeTag (tag : Nat)
  /-- No type starts with this byte. -/
  | unknownElement (element : UInt8) (offset : Nat)
  | notField (convention : UInt8)
  | notProperty (convention : UInt8)
  | notLocals (convention : UInt8)
  | notInstantiation (convention : UInt8)
  /-- Naming a type leads back to a type that is being named, and so never ends. This is no
      fault of the blob. -/
  | endless
deriving DecidableEq, Repr

namespace SignatureFault

private def byteText (b : UInt8) : String :=
  "0x" ++ Digits.hexByte .upper b

def message : SignatureFault → String
  | truncated offset => "Signature truncated at offset " ++ toString offset
  | badLeadByte lead => "Invalid compressed integer lead byte " ++ byteText lead
  | badTypeTag tag => "Invalid TypeDefOrRef tag " ++ toString tag
  | unknownElement element offset =>
    "Unsupported element type " ++ byteText element ++ " at offset " ++ toString offset
  | notField convention => "Not a field signature (" ++ byteText convention ++ ")"
  | notProperty convention => "Not a property signature (" ++ byteText convention ++ ")"
  | notLocals convention => "Not a local variable signature (" ++ byteText convention ++ ")"
  | notInstantiation convention =>
    "Not a generic method instantiation (" ++ byteText convention ++ ")"
  | endless => "maximum recursion depth exceeded"

end SignatureFault

end ILDump
