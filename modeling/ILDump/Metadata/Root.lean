import ILDump.Container.Executable
import ILDump.Text.Utf8
import ILDump.Metadata.Token

/-!
# The root of the metadata

The header for managed code says where the metadata is. The metadata starts with a root
that lists streams by name: the tables, and the heaps that the tables refer to. Of
several streams for one purpose the last one counts.
-/

namespace ILDump

/-- The header for managed code. -/
structure ManagedHeader where
  metadataAddress : Nat
  metadataSize : Nat
  flags : Nat
  /-- The token of the method to start with. -/
  entryPoint : Token
deriving Repr

/-- The streams of the metadata. A heap that is missing is empty. -/
structure Streams where
  tables : Bytes
  strings : Bytes
  userStrings : Bytes
  guids : Bytes
  blobs : Bytes
deriving Repr

namespace ManagedHeader

def size : Nat := 72

/-- Reads the header of an executable. There is none if the directory is empty or holds
    too few bytes; an address outside of the file is a fault of the whole file. -/
def of? (x : Executable) : Except ContainerFault (Option ManagedHeader) :=
  if x.managedAddress = 0 then .ok none
  else
    match x.dataAt? x.managedAddress x.managedSize with
    | none => .error .unmappedAddress
    | some bytes =>
      if bytes.length < size then .ok none
      else .ok (some ⟨bytes.word 8 4, bytes.word 12 4, bytes.word 16 4, ⟨bytes.word 20 4⟩⟩)

end ManagedHeader

namespace Streams

def signature : Nat := 0x424A5342

structure Entry where
  offset : Nat
  size : Nat
  name : Bytes

/-- Reads at most `count` entries of the stream list. A name ends with at least one zero
    byte and fills up whole words. -/
def entries : Nat → Bytes → List Entry
  | 0, _ => []
  | count + 1, bytes =>
    let name := (bytes.drop 8).takeWhile (· ≠ 0)
    if bytes.length < 8 then []
    else
      ⟨bytes.word 0 4, bytes.word 4 4, name⟩ ::
        entries count (bytes.drop (8 + (name.length / 4 + 1) * 4))

structure Loaded where
  name : Bytes
  data : Bytes

/-- How many bytes an identifier takes. -/
def identifierSize : Nat := 16

/-- Whether a stream is a heap of identifiers too small for a single one. -/
def Loaded.isSpoiled (s : Loaded) : Bool :=
  s.name = Utf8.encode "#GUID" && s.data.length < identifierSize

/-- The streams up to the first spoiled one; those behind it cannot be used. -/
def usable : List Loaded → List Loaded
  | [] => []
  | s :: rest => if s.isSpoiled then [s] else s :: usable rest

/-- The data of the last stream with one of some names. -/
def last? (names : List String) (ss : List Loaded) : Option Bytes :=
  (ss.reverse.find? fun s => names.any fun n => Utf8.encode n = s.name).map (·.data)

/-- The streams of the metadata, if there is a root, the data of all streams can be
    fetched, and one of them holds tables. -/
def of? (x : Executable) (h : ManagedHeader) : Option Streams := do
  let root ← x.dataAt? h.metadataAddress h.metadataSize
  if root.length < h.metadataSize ∨ root.length < 16 then none
  if root.word 0 4 ≠ signature then none
  let listStart := 16 + root.word 12 4
  if root.length < listStart + 4 then none
  let es := entries (root.word (listStart + 2) 2) (root.drop (listStart + 4))
  let loaded ← es.mapM fun e =>
    (x.dataAt? (h.metadataAddress + e.offset) e.size).map (Loaded.mk e.name)
  let find := fun names => last? names (usable loaded)
  let tables ← find ["#~", "#-", "#Schema"]
  return {
    tables
    strings := (find ["#Strings"]).getD []
    userStrings := (find ["#US"]).getD []
    guids := (find ["#GUID"]).getD []
    blobs := (find ["#Blob"]).getD [] }

end Streams

end ILDump
