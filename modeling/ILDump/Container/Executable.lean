import ILDump.Bytes
import ILDump.Container.Fault

/-!
# Executable files

An executable has headers and sections. Sections say which part of the file is loaded at
which address, so data of a loaded program is found in the file through them. Headers
may be wrong in many ways; what can still be read is read.

`Executable.ofBytes` reads headers and section table, `Executable.dataAt?` finds the
bytes at an address.
-/

namespace ILDump

/-- Where a part of the file is loaded. -/
structure Section where
  virtualSize : Nat
  virtualAddress : Nat
  rawSize : Nat
  rawPointer : Nat
deriving DecidableEq, Repr

/-- An executable file with what its headers say. -/
structure Executable where
  bytes : Bytes
  imageBase : Nat
  sectionAlignment : Nat
  fileAlignment : Nat
  stackReserve : Nat
  subsystem : Nat
  /-- Address and size of the directory for managed code, zero if there is none. -/
  managedAddress : Nat
  managedSize : Nat
  sections : List Section
  /-- How many bytes at the start of the file belong to the headers. -/
  headerSize : Nat
deriving Repr

namespace Executable

/-- Rounds down to a multiple; an alignment of zero does not round. -/
def alignDown (alignment n : Nat) : Nat :=
  if alignment = 0 then n else n / alignment * alignment

/-- Places in the file are aligned to this many bytes. -/
def rawAlignment : Nat := 0x200

/-- Pages in memory have this many bytes; a smaller section alignment does not count. -/
def pageSize : Nat := 0x1000

/-- The greatest size and address that a section may claim. -/
def sectionLimit : Nat := 0x10000000

structure Alignment where
  sections : Nat
  file : Nat

namespace Alignment

/-- Where a section starts in memory. -/
def address (a : Alignment) (s : Section) : Nat :=
  alignDown (if a.sections < pageSize then a.file else a.sections) s.virtualAddress

/-- Where a section starts in the file. -/
def place (a : Alignment) (s : Section) : Nat :=
  if a.sections < pageSize ∧ s.rawPointer = s.virtualAddress then s.rawPointer
  else alignDown rawAlignment s.rawPointer

/-- How many things are wrong with a section of a file of `size` bytes. -/
def errors (a : Alignment) (size : Nat) (s : Section) : Nat :=
  [ decide (size < s.rawSize + s.rawPointer),
    decide (size < a.place s),
    decide (sectionLimit < s.virtualSize),
    decide (sectionLimit < a.address s),
    decide (a.file ≠ 0 ∧ s.rawPointer % a.file ≠ 0) ].count true

end Alignment

def sectionHeaderSize : Nat := 40

/-- Reads at most `count` section headers. Reading stops at a header that is absent, all
    zero, or wrong in three ways. -/
def readSections (a : Alignment) (bytes : Bytes) : Nat → Nat → Except ContainerFault (List Section)
  | 0, _ => .ok []
  | count + 1, offset =>
    let header := bytes.slice offset sectionHeaderSize
    if header.isEmpty then .ok []
    else if header.length = sectionHeaderSize ∧ header.all (· == 0) then .ok []
    else if header.length < sectionHeaderSize then .error .shortSectionHeader
    else
      let s : Section := ⟨header.word 8 4, header.word 12 4, header.word 16 4, header.word 20 4⟩
      if 3 ≤ a.errors bytes.length s then .ok []
      else (readSections a bytes count (offset + sectionHeaderSize)).map (s :: ·)

/-- How many bytes at the start of the file belong to the headers: up to the first place
    of a section, or else to the end of the section table. -/
def headerExtent (a : Alignment) (tableEnd : Nat) (sections : List Section) : Nat :=
  let places := (sections.filter fun s => 0 < s.rawPointer).map a.place
  match places.min? with
  | some lowest => if lowest = 0 ∨ lowest < tableEnd then tableEnd else lowest
  | none => tableEnd

/-- The offset of the new header, behind the first one. -/
def newHeaderOffset (bytes : Bytes) : Except ContainerFault Nat := do
  if bytes.length < 64 then throw .shortDosHeader
  if bytes.word 0 2 = 0x4D5A then throw .zmExecutable
  if bytes.word 0 2 ≠ 0x5A4D then throw .noDosMagic
  let offset := bytes.word 60 4
  if bytes.length < offset then throw .badNewHeaderOffset
  return offset

def checkSignature (bytes : Bytes) (offset : Nat) : Except ContainerFault Unit := do
  if (bytes.slice offset 8).length < 8 then throw .noNewHeader
  let signature := bytes.word offset 4
  if signature = 0 then throw .noNewHeader
  match signature % 0x10000 with
  | 0x454E => throw (.foreignFormat .ne)
  | 0x454C => throw (.foreignFormat .le)
  | 0x584C => throw (.foreignFormat .lx)
  | 0x5A56 => throw (.foreignFormat .te)
  | _ => if signature ≠ 0x4550 then throw .badSignature

def ofBytes (bytes : Bytes) : Except ContainerFault Executable := do
  let start ← newHeaderOffset bytes
  checkSignature bytes start
  let fileHeader := bytes.slice (start + 4) 20
  if fileHeader.length < 20 then throw .noFileHeader
  let sectionCount := fileHeader.word 2 2
  let optionalSize := fileHeader.word 16 2
  let optionalStart := start + 24
  let optional := bytes.slice optionalStart 0x200
  let wide := optional.word 0 2 = 0x20B
  if optional.length < (if wide then 73 else 69) then throw .noOptionalHeader
  let a : Alignment := ⟨optional.word 32 4, optional.word 36 4⟩
  let directories := optionalStart + if wide then 112 else 96
  let managed := directories + 14 * 8
  let tableStart := optionalStart + optionalSize
  let sections ← readSections a bytes sectionCount tableStart
  let tableEnd := if sections.isEmpty then tableStart else tableStart + sectionHeaderSize * sectionCount
  let sorted := sections.mergeSort fun s t => s.virtualAddress ≤ t.virtualAddress
  return {
    bytes
    imageBase := if wide then optional.word 24 8 else optional.word 28 4
    sectionAlignment := a.sections
    fileAlignment := a.file
    stackReserve := if wide then optional.word 72 8 else optional.word 72 4
    subsystem := optional.word 68 2
    managedAddress := bytes.word managed 4
    managedSize := bytes.word (managed + 4) 4
    sections := sorted
    headerSize := min (headerExtent a tableEnd sorted) bytes.length }

def alignment (x : Executable) : Alignment :=
  ⟨x.sectionAlignment, x.fileAlignment⟩

/-- How many addresses a section takes, given the address of the next one. A size that
    the file cannot back is not believed, and a section ends where the next one starts. -/
def extent (x : Executable) (s : Section) (next? : Option Nat) : Nat :=
  let a := x.alignment
  let size :=
    if x.bytes.length < s.rawSize + a.place s then s.virtualSize
    else max s.rawSize s.virtualSize
  match next? with
  | some next =>
    if s.virtualAddress < next ∧ next < a.address s + size then next - a.address s else size
  | none => size

/-- The first section that contains an address. -/
def findSection? (x : Executable) (address : Nat) : List Section → Option Section
  | [] => none
  | s :: rest =>
    let first := x.alignment.address s
    let size := x.extent s (rest.head?.map Section.virtualAddress)
    if first ≤ address ∧ address < first + size then some s
    else findSection? x address rest

/-- The bytes at an address, at most `count` of them. Within a section, reading stops at
    the end of its part of the file. Outside of all sections an address is a place in
    the file, where a count of zero stands for everything. -/
def dataAt? (x : Executable) (address count : Nat) : Option Bytes :=
  match findSection? x address x.sections with
  | some s =>
    let start := address - x.alignment.address s + x.alignment.place s
    let stop := min (start + count) (s.rawPointer + s.rawSize)
    some (x.bytes.slice start (stop - start))
  | none =>
    let count := if count = 0 then x.bytes.length else count
    if address < x.headerSize then some (Bytes.slice (x.bytes.take x.headerSize) address count)
    else if address < x.bytes.length then some (x.bytes.slice address count)
    else none

end Executable

end ILDump
