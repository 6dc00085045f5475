import ILDump.Text.Digits

/-!
# Metadata tokens

A token names a row of a metadata table: the table's number above 24 bits of row
number. The two parts are joined by a bitwise or, so a row number too large for its 24
bits runs into the table's.
-/

namespace ILDump

/-- A table number and a row number in one word. -/
structure Token where
  value : Nat
deriving DecidableEq, Repr, Inhabited

/-! ### Numbers of the tables that tokens and coded indexes refer to -/
namespace TableNumber

abbrev module : Nat := 0x00
abbrev typeRef : Nat := 0x01
abbrev typeDef : Nat := 0x02
abbrev field : Nat := 0x04
abbrev method : Nat := 0x06
abbrev param : Nat := 0x08
abbrev interfaceImpl : Nat := 0x09
abbrev memberRef : Nat := 0x0A
abbrev constant : Nat := 0x0B
abbrev customAttribute : Nat := 0x0C
abbrev declSecurity : Nat := 0x0E
abbrev standAloneSig : Nat := 0x11
abbrev eventMap : Nat := 0x12
abbrev event : Nat := 0x14
abbrev propertyMap : Nat := 0x15
abbrev property : Nat := 0x17
abbrev methodSemantics : Nat := 0x18
abbrev moduleRef : Nat := 0x1A
abbrev typeSpec : Nat := 0x1B
abbrev assembly : Nat := 0x20
abbrev assemblyRef : Nat := 0x23
abbrev file : Nat := 0x26
abbrev exportedType : Nat := 0x27
abbrev manifestResource : Nat := 0x28
abbrev nestedClass : Nat := 0x29
abbrev genericParam : Nat := 0x2A
abbrev methodSpec : Nat := 0x2B
abbrev genericParamConstraint : Nat := 0x2C

/-- Not a table: tokens with this number point into the heap of user strings. -/
abbrev userString : Nat := 0x70

end TableNumber

namespace Token

def ofRow (table row : Nat) : Token :=
  ⟨(table <<< 24) ||| row⟩

def table (t : Token) : Nat :=
  t.value >>> 24

def row (t : Token) : Nat :=
  t.value &&& 0xFFFFFF

/-- A bracketed numeral, the form of a token that has no name of its own. -/
def text (t : Token) : String :=
  "[token 0x" ++ Digits.hex .upper 8 t.value ++ "]"

end Token

end ILDump
