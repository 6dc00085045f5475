import ILDump.Metadata.Token

/-!
# Shapes of the metadata tables

Every table has fixed columns. Numbers have a fixed size; indexes into heaps and tables
take two bytes while everything they may point to fits, and four otherwise. A coded
index selects one of several tables by its lowest bits.
-/

namespace ILDump.Schema

open TableNumber

/-- A family of coded indexes: how many bits select the table, and which tables. -/
structure Coding where
  tagBits : Nat
  /-- The tables by tag; a tag without a table is not used. -/
  tables : List (Option Nat)

/-- What a column holds. -/
inductive Column where
  | number (size : Nat)
  | string
  | guid
  | blob
  | index (table : Nat)
  | coded (coding : Coding)

def typeDefOrRef : Coding := ⟨2, [some typeDef, some typeRef, some typeSpec]⟩

def hasConstant : Coding := ⟨2, [some field, some param, some property]⟩

def hasCustomAttribute : Coding :=
  ⟨5, [some method, some field, some typeRef, some typeDef, some param, some interfaceImpl,
    some memberRef, some module, some declSecurity, some property, some event,
    some standAloneSig, some moduleRef, some typeSpec, some assembly, some assemblyRef,
    some file, some exportedType, some manifestResource, some genericParam,
    some genericParamConstraint, some methodSpec]⟩

def hasFieldMarshal : Coding := ⟨1, [some field, some param]⟩

def hasDeclSecurity : Coding := ⟨2, [some typeDef, some method, some assembly]⟩

def memberRefParent : Coding :=
  ⟨3, [some typeDef, some typeRef, some moduleRef, some method, some typeSpec]⟩

def hasSemantics : Coding := ⟨1, [some event, some property]⟩

def methodDefOrRef : Coding := ⟨1, [some method, some memberRef]⟩

def memberForwarded : Coding := ⟨1, [some field, some method]⟩

def implementation : Coding := ⟨2, [some file, some assemblyRef, some exportedType]⟩

def customAttributeType : Coding := ⟨3, [none, none, some method, some memberRef, none]⟩

def resolutionScope : Coding :=
  ⟨2, [some module, some moduleRef, some assemblyRef, some typeRef]⟩

def typeOrMethodDef : Coding := ⟨1, [some typeDef, some method]⟩

/-- The columns of each table by its number. There is no table of any other number. -/
def columns? : Nat → Option (List Column)
  | 0x00 => some [.number 2, .string, .guid, .guid, .guid]
  | 0x01 => some [.coded resolutionScope, .string, .string]
  | 0x02 => some [.number 4, .string, .string, .coded typeDefOrRef, .index field, .index method]
  | 0x03 => some [.index field]
  | 0x04 => some [.number 2, .string, .blob]
  | 0x05 => some [.index method]
  | 0x06 => some [.number 4, .number 2, .number 2, .string, .blob, .index param]
  | 0x07 => some [.index param]
  | 0x08 => some [.number 2, .number 2, .string]
  | 0x09 => some [.index typeDef, .coded typeDefOrRef]
  | 0x0A => some [.coded memberRefParent, .string, .blob]
  | 0x0B => some [.number 2, .coded hasConstant, .blob]
  | 0x0C => some [.coded hasCustomAttribute, .coded customAttributeType, .blob]
  | 0x0D => some [.coded hasFieldMarshal, .blob]
  | 0x0E => some [.number 2, .coded hasDeclSecurity, .blob]
  | 0x0F => some [.number 2, .number 4, .index typeDef]
  | 0x10 => some [.number 4, .index field]
  | 0x11 => some [.blob]
  | 0x12 => some [.index typeDef, .index event]
  | 0x13 => some [.index event]
  | 0x14 => some [.number 2, .string, .coded typeDefOrRef]
  | 0x15 => some [.index typeDef, .index property]
  | 0x16 => some [.index property]
  | 0x17 => some [.number 2, .string, .blob]
  | 0x18 => some [.number 2, .index method, .coded hasSemantics]
  | 0x19 => some [.index typeDef, .coded methodDefOrRef, .coded methodDefOrRef]
  | 0x1A => some [.string]
  | 0x1B => some [.blob]
  | 0x1C => some [.number 2, .coded memberForwarded, .string, .index moduleRef]
  | 0x1D => some [.number 4, .index field]
  | 0x1E => some [.number 4, .number 4]
  | 0x1F => some [.number 4]
  | 0x20 => some [.number 4, .number 2, .number 2, .number 2, .number 2, .number 4, .blob,
      .string, .string]
  | 0x21 => some [.number 4]
  | 0x22 => some [.number 4, .number 4, .number 4]
  | 0x23 => some [.number 2, .number 2, .number 2, .number 2, .number 4, .blob, .string,
      .string, .blob]
  | 0x24 => some [.number 4, .index assemblyRef]
  | 0x25 => some [.number 4, .number 4, .number 4, .index assemblyRef]
  | 0x26 => some [.number 4, .string, .blob]
  | 0x27 => some [.number 4, .number 4, .string, .string, .coded implementation]
  | 0x28 => some [.number 4, .number 4, .string, .coded implementation]
  | 0x29 => some [.index typeDef, .index typeDef]
  | 0x2A => some [.number 2, .number 2, .coded typeOrMethodDef, .string]
  | 0x2B => some [.coded methodDefOrRef, .blob]
  | 0x2C => some [.index genericParam, .coded typeDefOrRef]
  | _ => none

/-- What the sizes of indexes depend on. -/
structure Sizes where
  wideStrings : Bool
  wideGuids : Bool
  wideBlobs : Bool
  rowCount : Nat → Nat

def indexSize (wide : Bool) : Nat :=
  if wide then 4 else 2

def Sizes.columnSize (s : Sizes) : Column → Nat
  | .number size => size
  | .string => indexSize s.wideStrings
  | .guid => indexSize s.wideGuids
  | .blob => indexSize s.wideBlobs
  | .index table => indexSize (0x10000 < s.rowCount table)
  | .coded coding =>
    indexSize (coding.tables.any fun t => t.any fun t =>
      decide (Nat.pow 2 (16 - coding.tagBits) < s.rowCount t))

def Sizes.rowSize (s : Sizes) : List Column → Nat
  | [] => 0
  | c :: rest => s.columnSize c + s.rowSize rest

end ILDump.Schema
