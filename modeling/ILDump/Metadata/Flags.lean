/-!
# Flags

Attributes of types and members are stored as bits and fields of bits. Listings show
them as words, in an order of their own.
-/

namespace ILDump.Flags

/-- Words for single bits, each with the value of its bit. -/
abbrev BitWords := List (Nat × String)

/-- The words of the bits that are set. -/
def wordsOf (flags : Nat) (words : BitWords) : List String :=
  (words.filter fun w => flags &&& w.1 ≠ 0).map (·.2)

/-- The word for a value of a field of bits, if it has one. -/
def fieldWord (words : List String) (value : Nat) : List String :=
  (words[value]?).toList

def visibility : List String :=
  ["private", "public", "nested public", "nested private", "nested family",
    "nested assembly", "nested famandassem", "nested famorassem"]

/-- The words for the flags of a type. A layout that does not exist spoils them all. -/
def typeWords (flags : Nat) : List String :=
  let layout := flags / 8 % 4
  if layout = 3 then []
  else
    wordsOf flags [(0x20, "interface")] ++
      fieldWord visibility (flags % 8) ++
      fieldWord ["auto", "sequential", "explicit"] layout ++
      fieldWord ["ansi", "unicode", "autochar"] (flags / 0x10000 % 4) ++
      wordsOf flags [(0x80, "abstract"), (0x100, "sealed"), (0x400, "specialname"),
        (0x800, "rtspecialname"), (0x1000, "import"), (0x2000, "serializable"),
        (0x100000, "beforefieldinit")]

def accessibility : List String :=
  ["privatescope", "private", "famandassem", "assembly", "family", "famorassem", "public"]

def fieldWords (flags : Nat) : List String :=
  fieldWord accessibility (flags % 8) ++
    wordsOf flags [(0x10, "static"), (0x20, "initonly"), (0x40, "literal"),
      (0x80, "notserialized"), (0x200, "specialname"), (0x400, "rtspecialname"),
      (0x2000, "pinvokeimpl")]

def methodWords (flags : Nat) : List String :=
  fieldWord accessibility (flags % 8) ++
    wordsOf flags [(0x20, "final"), (0x80, "hidebysig"), (0x800, "specialname"),
      (0x1000, "rtspecialname"), (0x100, "newslot"), (0x400, "abstract"),
      (0x40, "virtual"), (0x200, "strict"), (0x10, "static"), (0x2000, "pinvokeimpl")]

def isAbstract (flags : Nat) : Bool :=
  flags.testBit 10

def implWords (flags : Nat) : List String :=
  fieldWord ["cil", "native", "optil", "runtime"] (flags % 4) ++
    fieldWord ["managed", "unmanaged"] (flags / 4 % 2) ++
    wordsOf flags [(0x10, "forwardref"), (0x80, "preservesig"), (0x1000, "internalcall"),
      (0x20, "synchronized"), (8, "noinlining")]

/-- Whether a method is implemented in intermediate language. -/
def isIntermediate (implFlags : Nat) : Bool :=
  implFlags % 4 = 0

def memberWords (flags : Nat) : List String :=
  wordsOf flags [(0x200, "specialname"), (0x400, "rtspecialname")]

/-- Whether a reference holds the whole public key. -/
def hasFullKey (flags : Nat) : Bool :=
  flags.testBit 0

/-- Whether an assembly may be replaced by another. -/
def isRetargetable (flags : Nat) : Bool :=
  flags.testBit 8

/-- The directives of accessors by the values of their bits, in the order in which they
    are listed. -/
def accessorDirectives : BitWords :=
  [(2, ".get"), (1, ".set"), (8, ".addon"), (0x10, ".removeon"), (0x20, ".fire"), (4, ".other")]

end ILDump.Flags
