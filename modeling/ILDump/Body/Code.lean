import ILDump.Bytes
import ILDump.Text.Quoted
import ILDump.Metadata.Token
import ILDump.Body.Opcode

/-!
# Method bodies

A body is a header, instructions and sections with exception clauses. A small body has a
header of one byte; a large one states its stack, locals and flags. Bytes are fetched by
address, so a body may end wherever its part of the file does.

Instructions and branch targets have addresses; a target is stored as its distance from the
end of its instruction. The offsets of clauses count from the start of the code.
-/

namespace ILDump

/-- Why a method body could not be read. -/
inductive BodyFault where
  /-- Nothing is to be had at an address. -/
  | unreadable (count address : Nat)
  | truncated (address : Nat)
  | badFormat (format : Nat)
deriving DecidableEq, Repr

namespace BodyFault

def text : BodyFault → String
  | unreadable count address =>
    "unable to read 0x" ++ Digits.hex .upper 1 count ++ " bytes @ offset 0x" ++
      Digits.hex .upper 1 address
  | truncated address =>
    "not enough data while parsing method body @ offset 0x" ++ Digits.hex .upper 1 address
  | badFormat format => "bad header format 0x" ++ Digits.hex .upper 2 format

/-- The wording in quotes, as it is reported. -/
def message (f : BodyFault) : String :=
  Quoted.display f.text

end BodyFault

inductive Operand where
  | none
  | integer (n : Int)
  | real32 (bits : Nat)
  | real64 (bits : Nat)
  | token (t : Token)
  | string (t : Token)
  | target (address : Int)
  | targets (addresses : List Int)
  | argument (number : Nat)
  | localVariable (number : Nat)
deriving DecidableEq, Repr

/-- An instruction with the address it is at. -/
structure CodeInstruction where
  address : Nat
  mnemonic : String
  operand : Operand
deriving DecidableEq, Repr

/-- An exception clause as it is stored. The last field is a type or a filter's offset. -/
structure CodeClause where
  flags : Nat
  tryStart : Nat
  tryLength : Nat
  handlerStart : Nat
  handlerLength : Nat
  last : Nat
deriving DecidableEq, Repr

structure Code where
  /-- The address of the first instruction. -/
  start : Nat
  maxStack : Nat
  size : Nat
  initLocals : Bool
  localsToken : Token
  instructions : List CodeInstruction
  clauses : List CodeClause
deriving Repr

namespace Code

/-- Fetches bytes by address, at most as many as asked for. -/
abbrev Fetch := Nat → Nat → Option Bytes

/-- Readers of a body, which know the address they are at. -/
abbrev Scan (α : Type) : Type :=
  StateT Nat (Except BodyFault) α

def bytes (fetch : Fetch) (count : Nat) : Scan Bytes := do
  let address ← get
  match fetch address count with
  | .none => throw (.unreadable count address)
  | some bs =>
    if bs.length < count then throw (.truncated (address + count - bs.length))
    set (address + count)
    return bs

def number (fetch : Fetch) (count : Nat) : Scan Nat := do
  return Bytes.number (← bytes fetch count)

def signed (fetch : Fetch) (count : Nat) : Scan Int := do
  return Bytes.signed (8 * count) (← number fetch count)

/-- `count` numbers, one after the other. -/
def repeated {α : Type} (item : Scan α) : Nat → Scan (List α)
  | 0 => pure []
  | count + 1 => do
    let x ← item
    let xs ← repeated item count
    return x :: xs

def operand (fetch : Fetch) : OperandKind → Scan Operand
  | .none => pure .none
  | .integer size => return .integer (← signed fetch size)
  | .real size => do
    let bits ← number fetch size
    return if size = 4 then .real32 bits else .real64 bits
  | .token => return .token ⟨← number fetch 4⟩
  | .string => return .string ⟨← number fetch 4⟩
  | .branch size => do
    let distance ← signed fetch size
    return .target ((← get : Nat) + distance)
  | .argument size => return .argument (← number fetch size)
  | .localVariable size => return .localVariable (← number fetch size)
  | .switch => do
    let count ← number fetch 4
    let distances ← repeated (signed fetch 4) count
    let base : Nat ← get
    return .targets (distances.map (base + ·))

def opcode (fetch : Fetch) : Scan Opcode := do
  let first ← number fetch 1
  if first = Opcode.extension then
    return Opcode.ofExtended (← number fetch 1)
  else
    return Opcode.ofShort first

def instruction (fetch : Fetch) : Scan CodeInstruction := do
  let address ← get
  let op ← opcode fetch
  return ⟨address, op.mnemonic, ← operand fetch op.operand⟩

/-- The instructions that start before an address, at most `bound` of them. -/
def instructionsBefore (fetch : Fetch) (stop : Nat) : Nat → Scan (List CodeInstruction)
  | 0 => pure []
  | bound + 1 => do
    if (← get) < stop then
      let i ← instruction fetch
      let is ← instructionsBefore fetch stop bound
      return i :: is
    else
      return []

/-- A clause of a large section: six words. -/
def largeClause (fetch : Fetch) : Scan CodeClause := do
  let word := number fetch 4
  return ⟨← word, ← word, ← word, ← word, ← word, ← word⟩

/-- A clause of a small section: short words and bytes. -/
def smallClause (fetch : Fetch) : Scan CodeClause := do
  let short := number fetch 2
  let byte := number fetch 1
  return ⟨← short, ← short, ← byte, ← short, ← byte, ← number fetch 4⟩

/-- The clauses of the first section behind the code, which starts at a multiple of four.
    A section of another kind has none. -/
def clauseSection (fetch : Fetch) : Scan (List CodeClause) := do
  let address := ((← get) + 3) / 4 * 4
  set address
  let kind ← number fetch 1
  if kind % 0x40 ≠ 1 then
    return []
  else if kind.testBit 6 then
    set address
    let size := (← number fetch 4) / 0x100
    repeated (largeClause fetch) (size / 24)
  else
    let size ← number fetch 1
    modify (· + 2)
    repeated (smallClause fetch) (size / 12)

structure Header where
  maxStack : Nat
  codeSize : Nat
  localsToken : Token
  initLocals : Bool
  moreSections : Bool
  headerSize : Nat

def header (fetch : Fetch) : Scan Header := do
  let first ← number fetch 1
  let format := first % 8
  if format = 2 ∨ format = 6 then
    return {
      maxStack := 8, codeSize := first / 4, localsToken := ⟨0⟩, initLocals := false
      moreSections := false, headerSize := 1 }
  else if format = 3 then
    let flags := first + 0x100 * (← number fetch 1)
    let maxStack ← number fetch 2
    let codeSize ← number fetch 4
    let locals ← number fetch 4
    return {
      maxStack, codeSize, localsToken := ⟨locals⟩, initLocals := flags.testBit 4
      moreSections := flags.testBit 3, headerSize := flags / 0x1000 * 4 }
  else
    throw (.badFormat format)

def body (fetch : Fetch) : Scan Code := do
  let address ← get
  let h ← header fetch
  let start := address + h.headerSize
  set start
  let instructions ← instructionsBefore fetch (start + h.codeSize) h.codeSize
  let clauses ← if h.moreSections then clauseSection fetch else pure []
  return ⟨start, h.maxStack, h.codeSize, h.initLocals, h.localsToken, instructions, clauses⟩

def read (fetch : Fetch) (address : Nat) : Except BodyFault Code :=
  (body fetch).run' address

end Code

end ILDump
