import ILDump.Shell.Syntax
import ILDump.Text.Digits

/-!
# Formatted output

The two commands that print: one joins its arguments, the other fills a format, again and
again while arguments are left. Both undo escapes with a backslash.
-/

namespace ILDump.Shell

/-- The number of octal digits. -/
def octalNumber (cs : List Char) : Nat :=
  cs.foldl (fun n c => n * 8 + (c.toNat - 48)) 0

def isOctal (c : Char) : Bool :=
  '0' ≤ c && c ≤ '7'

/-- The leading octal digits of a text, at most three, as an octet, and what follows. -/
def readOctal (cs : List Char) : Char × List Char :=
  let digits := (cs.take 3).takeWhile isOctal
  (Char.ofNat (octalNumber digits % 256), cs.drop digits.length)

/-- What an escape with a letter stands for. -/
def escapedChar? (c : Char) : Option Char :=
  match c with
  | 'a' => some '\x07'
  | 'b' => some '\x08'
  | 'f' => some '\x0c'
  | 'n' => some '\n'
  | 'r' => some '\r'
  | 't' => some '\t'
  | 'v' => some '\x0b'
  | '\\' => some '\\'
  | _ => none

/-- Undoes the escapes of an argument that is printed. The flag tells that printing stops
    with it. -/
def undoEscapes : Nat → List Char → Octets × Bool
  | 0, _ => ([], false)
  | _, [] => ([], false)
  | fuel + 1, '\\' :: c :: cs =>
    let go := fun (x : Octets) (rest : List Char) =>
      let r := undoEscapes fuel rest
      (x ++ r.1, r.2)
    if c = 'c' then ([], true)
    else if c = '0' then
      let r := readOctal cs
      go [r.1] r.2
    else
      match escapedChar? c with
      | some x => go [x] cs
      | none => go ['\\', c] cs
  | fuel + 1, c :: cs =>
    let r := undoEscapes fuel cs
    (c :: r.1, r.2)

/-- The arguments with blanks between them, up to one that stops printing. -/
def joinedArguments (args : List Octets) : Octets × Bool :=
  let text := List.intercalate [' '] args
  undoEscapes (text.length + 1) text

/-- What is printed for arguments: they end in a line break unless that is unwanted. -/
def echoed (args : List Octets) : Octets :=
  match args with
  | ['-', 'n'] :: rest => (joinedArguments rest).1
  | args =>
    let r := joinedArguments args
    if r.2 then r.1 else r.1 ++ ['\n']

/-! ### Formats -/

/-- How a value is laid out. -/
structure Layout where
  alignsLeft : Bool
  hasZeros : Bool
  hasSign : Bool
  hasBlank : Bool
  isMarked : Bool
  width : Nat
  precision? : Option Nat

/-- Fills up to a width. -/
def Layout.fill (l : Layout) (cs : Octets) : Octets :=
  let blanks := List.replicate (l.width - cs.length) ' '
  if l.alignsLeft then cs ++ blanks else blanks ++ cs

/-- Lays out a number with its sign and digits. Zeros go between the two. -/
def Layout.number (l : Layout) (sign digits : Octets) : Octets :=
  let least :=
    match l.precision? with
    | some n => n
    | none => if l.hasZeros && !l.alignsLeft then l.width - sign.length else 0
  l.fill (sign ++ List.replicate (least - digits.length) '0' ++ digits)

/-- Digits of a number in some base. -/
def digitsIn (base n : Nat) (isUpper : Bool) : Octets :=
  let digits := Nat.toDigits base n
  if isUpper then digits.map Char.toUpper else digits

/-- The number that an argument stands for, and whether it is one as a whole. An argument
    that starts with a quote stands for the character after it. -/
def argumentNumber (cs : Octets) : Int × Bool :=
  match cs with
  | [] => (0, true)
  | '"' :: c :: rest => (c.toNat, rest.isEmpty)
  | '\'' :: c :: rest => (c.toNat, rest.isEmpty)
  | _ =>
    let cs := cs.dropWhile fun c => c = ' ' || c = '\t'
    let isNegative := cs.head? = some '-'
    let cs := if isNegative || cs.head? = some '+' then cs.drop 1 else cs
    let (base, cs) := match cs with
      | '0' :: 'x' :: rest => (16, rest)
      | '0' :: 'X' :: rest => (16, rest)
      | '0' :: rest => (8, '0' :: rest)
      | rest => (10, rest)
    let isDigit := fun c => (Digits.digitValue? c).any (· < base)
    let digits := cs.takeWhile isDigit
    let n := digits.foldl (fun n c => n * base + (Digits.digitValue? c).getD 0) 0
    (if isNegative then -(n : Int) else n, !digits.isEmpty && (cs.dropWhile isDigit).isEmpty)

/-- What printing by a format has come to. -/
structure Printing where
  /-- What was printed, in reverse. -/
  printed : Octets
  left : List Octets
  usedAny : Bool
  stopped : Bool
  /-- Arguments that were no numbers. -/
  refused : List Octets

def Printing.add (p : Printing) (cs : Octets) : Printing :=
  { p with printed := cs.reverse ++ p.printed }

/-- Takes the next argument; a missing one is empty. -/
def Printing.next (p : Printing) : Octets × Printing :=
  (p.left.headD [], { p with left := p.left.drop 1, usedAny := true })

/-- Takes the next argument as a number. -/
def Printing.nextNumber (p : Printing) : Int × Printing :=
  let (arg, p) := p.next
  let (n, isWhole) := argumentNumber arg
  (n, if isWhole then p else { p with refused := p.refused ++ [arg] })

/-- The value of a number without sign: a negative one counts down from the end. -/
def unsignedValue (n : Int) : Nat :=
  (n % 18446744073709551616).toNat

/-- Prints the next argument in the way a letter says; unknown letters print nothing. -/
def Printing.convert (p : Printing) (l : Layout) (letter : Char) : Printing :=
  let text := fun (cs : Octets) => l.fill ((l.precision?.map cs.take).getD cs)
  if letter = 's' then
    let (arg, p) := p.next
    p.add (text arg)
  else if letter = 'b' then
    let (arg, p) := p.next
    let r := undoEscapes (arg.length + 1) arg
    { p.add (text r.1) with stopped := r.2 }
  else if letter = 'c' then
    let (arg, p) := p.next
    p.add (l.fill (arg.take 1))
  else if letter = 'd' || letter = 'i' then
    let (n, p) := p.nextNumber
    let sign := if n < 0 then ['-'] else if l.hasSign then ['+'] else if l.hasBlank then [' '] else []
    p.add (l.number sign (digitsIn 10 n.natAbs false))
  else
    let (n, p) := p.nextNumber
    let n := unsignedValue n
    if letter = 'o' then p.add (l.number (if l.isMarked then ['0'] else []) (digitsIn 8 n false))
    else if letter = 'x' then
      p.add (l.number (if l.isMarked && n ≠ 0 then ['0', 'x'] else []) (digitsIn 16 n false))
    else if letter = 'X' then
      p.add (l.number (if l.isMarked && n ≠ 0 then ['0', 'X'] else []) (digitsIn 16 n true))
    else p.add (l.number [] (digitsIn 10 n false))

/-- The layout at the start of a conversion, and what follows it. -/
def readLayout (cs : List Char) : Layout × List Char :=
  let isFlag := fun c => c = '-' || c = '0' || c = '+' || c = ' ' || c = '#'
  let flags := cs.takeWhile isFlag
  let cs := cs.dropWhile isFlag
  let number := fun (cs : List Char) => cs.foldl (fun n c => n * 10 + (c.toNat - 48)) 0
  let width := number (cs.takeWhile Char.isDigit)
  let cs := cs.dropWhile Char.isDigit
  let (precision?, cs) := match cs with
    | '.' :: cs => (some (number (cs.takeWhile Char.isDigit)), cs.dropWhile Char.isDigit)
    | cs => (none, cs)
  (⟨flags.contains '-', flags.contains '0', flags.contains '+', flags.contains ' ',
    flags.contains '#', width, precision?⟩, cs)

/-- Prints a format once. -/
def Printing.pass : Nat → List Char → Printing → Printing
  | 0, _, p => p
  | _, [], p => p
  | fuel + 1, c :: cs, p =>
    if p.stopped then p
    else if c = '%' then
      match cs with
      | '%' :: cs => pass fuel cs (p.add ['%'])
      | cs =>
        match readLayout cs with
        | (l, letter :: cs) => pass fuel cs (p.convert l letter)
        | (_, []) => p
    else if c = '\\' then
      match cs with
      | [] => p.add ['\\']
      | d :: cs =>
        if isOctal d then
          let r := readOctal (d :: cs)
          pass fuel r.2 (p.add [r.1])
        else
          match escapedChar? d with
          | some x => pass fuel cs (p.add [x])
          | none => pass fuel cs (p.add ['\\', d])
    else pass fuel cs (p.add [c])

/-- Prints a format while arguments are left. -/
def Printing.passes : Nat → List Char → Printing → Printing
  | 0, _, p => p
  | fuel + 1, format, p =>
    let p := pass (format.length + 1) format { p with usedAny := false }
    if p.left.isEmpty || !p.usedAny || p.stopped then p else passes fuel format p

/-- What is printed for a format and arguments, and the arguments that were no numbers. -/
def formatted (format : Octets) (args : List Octets) : Octets × List Octets :=
  let p := Printing.passes (args.length + 1) format ⟨[], args, false, false, []⟩
  (p.printed.reverse, p.refused)

end ILDump.Shell
