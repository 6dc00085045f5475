import ILDump.Container.Fault
import ILDump.Signature.Fault
import ILDump.Body.Code

/-!
# Faults of a module

Why a file cannot be listed: it is no executable, it has no managed code, or a signature
or method body in it cannot be read. Naming a type may also never end, which is a fault of
another kind. Files may be decoded in other ways than the standard one; these have faults of
their own.
-/

namespace ILDump

/-- What a decoder of files or method bodies may end with besides the faults that are known,
    with a text of its own. -/
inductive DecoderFault where
  | format (text : String)
  | body (text : String)
  | index (text : String)
  | key (text : String)
  | value (text : String)
deriving DecidableEq, Repr

/-- The wording of a fault. Faults of a format are quoted, others name their kind. -/
def DecoderFault.message : DecoderFault → String
  | format text => Quoted.display text
  | body text => Quoted.display text
  | index text => "IndexError: " ++ text
  | key text => "KeyError: " ++ text
  | value text => "ValueError: " ++ text

/-- Why a file cannot be listed. -/
inductive ModuleFault where
  | container (f : ContainerFault)
  | noManagedHeader
  | noTables
  | signature (f : SignatureFault)
  | body (f : BodyFault)
  | decoder (f : DecoderFault)
  /-- Naming a type leads back to a type that is being named. -/
  | endless
deriving DecidableEq, Repr

namespace ModuleFault

/-- What went wrong where something was named: a signature is at fault, unless naming never
    ends. -/
def ofNaming : SignatureFault → ModuleFault
  | .endless => .endless
  | f => .signature f

/-- The wording of a fault. The path tells which file is meant, where that matters. -/
def message (path : String) : ModuleFault → String
  | container f => f.message
  | noManagedHeader => subject ++ " has no CLI header"
  | noTables => subject ++ " has no metadata table stream"
  | signature f => f.message
  | body f => f.message
  | decoder f => f.message
  | endless => SignatureFault.endless.message
where
  /-- What a message is about. -/
  subject : String := if path = "" then "image" else path

/-- Whether a part of a module was at fault, and not the file as a whole. -/
def isInContents : ModuleFault → Bool
  | signature _ => true
  | body _ => true
  | decoder (.body _) => true
  | _ => false

end ModuleFault

end ILDump
