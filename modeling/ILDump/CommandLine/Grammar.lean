import ILDump.Unicode.Decimal

/-!
# Arguments

Arguments are options, which start with a dash, and operands. A long option may be
shortened as long as it is the only one that starts so; a value may be attached to it
with an equals sign, and to a short option directly. A double dash ends the options.
Something that looks like a negative number or contains a blank is no option.

All arguments are told apart before the first one takes effect. Then they take effect
from left to right, so help wanted early wins over a mistake further on.
-/

namespace ILDump.Arguments

/-- Why reading arguments stops. -/
inductive Stop where
  | help
  | misuse
deriving DecidableEq, Repr

/-- How many values an option takes. -/
inductive Arity where
  | nothing
  | one
  | atMostOne
deriving DecidableEq, Repr

/-- An option, and what its values do to a result. -/
structure Flag (ω : Type) where
  names : List String
  arity : Arity
  apply : List String → ω → Except Stop ω

/-- Which operands are taken, and what they do to a result. -/
inductive Operands (ω : Type) where
  | nothing
  | oneOrMore (apply : List String → ω → Except Stop ω)
  /-- An operand and all that follows it, options too. -/
  | command (apply : List String → ω → Except Stop ω)

/-- What arguments are understood. -/
structure Grammar (ω : Type) where
  flags : List (Flag ω)
  operands : Operands ω

/-- What an argument is. -/
inductive Mark (ω : Type) where
  | operand
  | separator
  | unknown
  | option (flag : Flag ω) (name : String) (attached? : Option String)

namespace Mark

variable {ω : Type}

def isOption : Mark ω → Bool
  | operand => false
  | separator => false
  | unknown => true
  | option _ _ _ => true

def isOperand : Mark ω → Bool
  | operand => true
  | _ => false

def isSeparator : Mark ω → Bool
  | separator => true
  | _ => false

end Mark

abbrev Marked (ω : Type) := Mark ω × String

def doubleDash : String := "--"

def helpFlag (ω : Type) : Flag ω where
  names := ["-h", "--help"]
  arity := .nothing
  apply _ _ := .error .help

/-! ### Telling arguments apart -/

/-- Whether a text starts with another. -/
def startsWith (text front : String) : Bool :=
  front.toList.isPrefixOf text.toList

/-- Whether digits are a number: whole, or with a point in front of the last digits. -/
def isNumber (cs : List Char) : Bool :=
  let isDigit := fun c => (Unicode.decimalValue? c).isSome
  match cs.dropWhile isDigit with
  | [] => !cs.isEmpty
  | '.' :: fraction => !fraction.isEmpty && fraction.all isDigit
  | _ => false

/-- Whether an argument looks like a negative number. -/
def isNegativeNumber (arg : String) : Bool :=
  match arg.toList with
  | '-' :: cs => isNumber cs
  | _ => false

namespace Grammar

variable {ω : Type} (g : Grammar ω)

def namedFlags : List (Flag ω × String) :=
  g.flags.flatMap fun f => f.names.map fun name => (f, name)

def flag? (name : String) : Option (Flag ω) :=
  (g.namedFlags.find? fun p => p.2 = name).map (·.1)

/-- What stands before and after the first equals sign. -/
def splitValue (arg : String) : String × Option String :=
  let cs := arg.toList
  match cs.dropWhile (· ≠ '=') with
  | [] => (arg, none)
  | _ :: value => (String.ofList (cs.takeWhile (· ≠ '=')), some (String.ofList value))

/-- The options that an argument may stand for without being their name. -/
def candidates (arg : String) : List (Mark ω) :=
  if startsWith arg doubleDash then
    let (front, attached?) := splitValue arg
    (g.namedFlags.filter fun p => startsWith p.2 front).map fun p => .option p.1 p.2 attached?
  else
    let short := String.ofList (arg.toList.take 2)
    g.namedFlags.filterMap fun p =>
      if p.2 = short then some (.option p.1 p.2 (some (String.ofList (arg.toList.drop 2))))
      else if startsWith p.2 arg then some (.option p.1 p.2 none)
      else none

/-- Tells what an argument is that starts with a dash and is no option's name. -/
def markOther (arg : String) : Except Stop (Mark ω) :=
  match g.candidates arg with
  | [mark] => .ok mark
  | _ :: _ :: _ => .error .misuse
  | [] => .ok (if isNegativeNumber arg || arg.toList.contains ' ' then .operand else .unknown)

/-- Tells what an argument is. -/
def mark (arg : String) : Except Stop (Mark ω) :=
  if !startsWith arg "-" then .ok .operand
  else
    match g.flag? arg with
    | some f => .ok (.option f arg none)
    | none =>
      if arg = "-" then .ok .operand
      else
        match splitValue arg with
        | (name, some value) =>
          match g.flag? name with
          | some f => .ok (.option f name (some value))
          | none => g.markOther arg
        | (_, none) => g.markOther arg

/-- Tells what each argument is. After a double dash all are operands. -/
def markAll : List String → Except Stop (List (Marked ω))
  | [] => .ok []
  | arg :: rest =>
    if arg = doubleDash then .ok ((.separator, arg) :: rest.map fun r => (.operand, r))
    else do
      let m ← g.mark arg
      return (m, arg) :: (← markAll rest)

/-! ### Taking effect -/

/-- The values that follow an option, and what is left. -/
def followingValues (f : Flag ω) (rest : List (Marked ω)) :
    Except Stop (List String × List (Marked ω)) :=
  match f.arity, rest with
  | .nothing, _ => .ok ([], rest)
  | _, (.operand, value) :: rest => .ok ([value], rest)
  | .one, _ => .error .misuse
  | .atMostOne, _ => .ok ([], rest)

/-- The options that are written together, with their values, and what is left. -/
def together : Nat → Flag ω → String → Option String → List (Marked ω) →
    Except Stop (List (Flag ω × List String) × List (Marked ω))
  | _, f, _, none, rest => do
    let (values, rest) ← followingValues f rest
    return ([(f, values)], rest)
  | fuel, f, name, some value, rest =>
    if f.arity ≠ .nothing then .ok ([(f, [value])], rest)
    else if startsWith name doubleDash then .error .misuse
    else
      match fuel, value.toList with
      | fuel + 1, letter :: more =>
        let next := String.ofList ['-', letter]
        match g.flag? next with
        | some f' => do
          let attached? := if more.isEmpty then none else some (String.ofList more)
          let (others, rest) ← together fuel f' next attached? rest
          return ((f, []) :: others, rest)
        | none => .error .misuse
      | _, _ => .error .misuse

def applyFlags (result : ω) (found : List (Flag ω × List String)) : Except Stop ω :=
  found.foldlM (fun result p => p.1.apply (p.2.erase doubleDash) result) result

/-- The operands at the front and what is left, if they are what is taken. -/
def takeOperands? : Operands ω → List (Marked ω) → Option (List String × List (Marked ω))
  | .nothing, _ => none
  | .oneOrMore _, args =>
    let front := args.takeWhile fun m => !m.1.isOption
    if front.any fun m => m.1.isOperand then
      some ((front.map (·.2)).erase doubleDash, args.drop front.length)
    else none
  | .command _, args =>
    match args.dropWhile fun m => m.1.isSeparator with
    | (.operand, _) :: _ => some (args.map (·.2), [])
    | _ => none

def applyOperands : Operands ω → List String → ω → Except Stop ω
  | .nothing, _, result => .ok result
  | .oneOrMore apply, values, result => apply values result
  | .command apply, values, result => apply values result

/-- How far reading has come. -/
structure Progress (ω : Type) where
  result : ω
  operands : Operands ω
  /-- Whether there was anything that is not understood. -/
  hasStrays : Bool

/-- Lets the option at the front take effect. -/
def takeOption (p : Progress ω) : List (Marked ω) → Except Stop (Progress ω × List (Marked ω))
  | (.option f name attached?, arg) :: rest => do
    let (found, rest) ← g.together arg.length f name attached? rest
    return ({ p with result := ← applyFlags p.result found }, rest)
  | _ :: rest => .ok ({ p with hasStrays := true }, rest)
  | [] => .ok (p, [])

/-- Lets arguments take effect; each step takes at least one. -/
def takeAll : Nat → Progress ω → List (Marked ω) → Except Stop (Progress ω)
  | 0, p, _ => .ok p
  | fuel + 1, p, args =>
    if args.isEmpty then .ok p
    else if args.head?.any fun m => m.1.isOption then do
      let (p, rest) ← g.takeOption p args
      takeAll fuel p rest
    else
      match takeOperands? p.operands args with
      | some (values, rest) => do
        let result ← applyOperands p.operands values p.result
        takeAll fuel { p with result, operands := .nothing } rest
      | none => takeAll fuel { p with hasStrays := true } (args.dropWhile fun m => !m.1.isOption)

/-- Reads arguments. All operands that are wanted have to be there, and nothing may be left
    over. -/
def read (start : ω) (args : List String) : Except Stop ω := do
  let marked ← g.markAll args
  let p ← g.takeAll marked.length ⟨start, g.operands, false⟩ marked
  match p.operands, p.hasStrays with
  | .nothing, false => return p.result
  | _, _ => throw .misuse

end Grammar

end ILDump.Arguments
