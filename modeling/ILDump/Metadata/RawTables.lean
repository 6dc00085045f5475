import ILDump.Bytes
import ILDump.Metadata.Schema

/-!
# Tables as numbers

The table stream starts with a header that says which tables there are and how many rows
each has; the rows follow, table by table. Here a row is just the numbers in its
columns. Reading stops at the first table that is not known or whose rows do not fit,
and what was read before is kept.
-/

namespace ILDump

/-- The tables of a stream, each row as its numbers. -/
structure RawTables where
  /-- The tables that are there, with the rows they should have. -/
  counts : List (Nat × Nat)
  /-- The tables that could be read. -/
  rows : List (Nat × List (List Nat))
deriving Repr

namespace RawTables

def none : RawTables :=
  ⟨[], []⟩

/-- How many bytes the header takes in front of the row counts. -/
def headerSize : Nat := 24

/-- Splits the bytes of a row into the numbers of its columns. -/
def readRow (s : Schema.Sizes) : List Schema.Column → Bytes → List Nat
  | [], _ => []
  | c :: cs, bytes =>
    let size := s.columnSize c
    Bytes.number (bytes.take size) :: readRow s cs (bytes.drop size)

def readRows (s : Schema.Sizes) (columns : List Schema.Column) : Nat → Bytes → List (List Nat)
  | 0, _ => []
  | count + 1, bytes =>
    readRow s columns bytes :: readRows s columns count (bytes.drop (s.rowSize columns))

def readTables (s : Schema.Sizes) : List (Nat × Nat) → Bytes → List (Nat × List (List Nat))
  | [], _ => []
  | (table, count) :: rest, bytes =>
    match Schema.columns? table with
    | some columns =>
      let size := s.rowSize columns * count
      if bytes.length < size then []
      else (table, readRows s columns count bytes) :: readTables s rest (bytes.drop size)
    | Option.none => []

/-- The number of rows of a table; zero if it is not there. -/
def lookup (counts : List (Nat × Nat)) (table : Nat) : Nat :=
  ((counts.find? fun c => c.1 = table).map (·.2)).getD 0

def ofStream (bytes : Bytes) : RawTables :=
  if bytes.length < headerSize then none
  else
    let heapSizes := bytes.word 6 1
    let valid := bytes.word 8 8
    let present := (List.range 64).filter fun t => valid.testBit t
    let counts := present.mapIdx fun i t => (t, bytes.word (headerSize + 4 * i) 4)
    let extra := if heapSizes.testBit 6 then 4 else 0
    let s : Schema.Sizes := {
      wideStrings := heapSizes.testBit 0
      wideGuids := heapSizes.testBit 1
      wideBlobs := heapSizes.testBit 2
      rowCount := lookup counts }
    ⟨counts, readTables s counts (bytes.drop (headerSize + 4 * present.length + extra))⟩

def has (t : RawTables) (table : Nat) : Bool :=
  t.counts.any fun c => c.1 = table

def rowsOf (t : RawTables) (table : Nat) : List (List Nat) :=
  ((t.rows.find? fun r => r.1 = table).map (·.2)).getD []

end RawTables

end ILDump
