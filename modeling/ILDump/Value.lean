import ILDump.Text.Quoted
import ILDump.Decimal.Float

/-!
# Values

Diagnoses carry details of any shape: texts, numbers, lists and objects with their keys
in order. A value has two forms. `json` is the interchange form, in ASCII, either on one
line or indented. `plain` is the form for a reader of a message: texts are shown as they
are at the top and quoted inside lists and objects.
-/

namespace ILDump

/-- A piece of data. -/
inductive Value where
  | null
  | bool (b : Bool)
  | integer (n : Int)
  /-- A floating-point number by its 64 bits. -/
  | float (bits : Nat)
  | text (s : String)
  | list (items : List Value)
  /-- Pairs of key and value, in order. -/
  | object (pairs : List (String × Value))
deriving Repr, Inhabited

namespace Value

/-- The sixteen-bit units of a character beyond the first 65536, or the character
    itself. -/
def units (c : Char) : List Nat :=
  if c.toNat < 0x10000 then [c.toNat]
  else
    let n := c.toNat - 0x10000
    [0xD800 + n / 1024, 0xDC00 + n % 1024]

/-- One character inside a JSON text. Only printable ASCII stands for itself. -/
def jsonChar (c : Char) : List Char :=
  if c = '"' then ['\\', '"']
  else if c = '\\' then ['\\', '\\']
  else if c = '\n' then ['\\', 'n']
  else if c = '\r' then ['\\', 'r']
  else if c = '\t' then ['\\', 't']
  else if c.toNat = 8 then ['\\', 'b']
  else if c.toNat = 12 then ['\\', 'f']
  else if 32 ≤ c.toNat ∧ c.toNat < 127 then [c]
  else (units c).flatMap fun u => '\\' :: 'u' :: Digits.hexWord .lower 4 u

def jsonText (s : String) : String :=
  "\"" ++ String.ofList (s.toList.flatMap jsonChar) ++ "\""

/-- A JSON number; infinities and the undefined number have names. -/
def jsonFloat (bits : Nat) : String :=
  match Decimal.text64 bits with
  | "inf" => "Infinity"
  | "-inf" => "-Infinity"
  | "nan" => "NaN"
  | s => s

/-- How the parts of lists and objects are separated: on one line with a blank, or on
    lines of their own with so many blanks for each level. -/
inductive Spacing where
  | inline
  | lines (indent : Nat)
deriving Repr

/-- The line break and indentation before an item at a level. -/
def Spacing.before : Spacing → Nat → String
  | .inline, _ => ""
  | .lines indent, level => "\n" ++ String.ofList (List.replicate (indent * level) ' ')

/-- What stands between two items. -/
def Spacing.between : Spacing → Nat → String
  | .inline, _ => ", "
  | .lines indent, level => "," ++ Spacing.before (.lines indent) level

/-- Items between brackets; without items the brackets touch. -/
def Spacing.enclose (s : Spacing) (level : Nat) (opening closing : String)
    (items : List String) : String :=
  if items.isEmpty then opening ++ closing
  else
    opening ++ s.before (level + 1) ++ String.intercalate (s.between (level + 1)) items ++
      s.before level ++ closing

mutual

/-- A value as JSON at some level of nesting. -/
def jsonAt (s : Spacing) (level : Nat) : Value → String
  | null => "null"
  | bool b => if b then "true" else "false"
  | integer n => toString n
  | float bits => jsonFloat bits
  | text t => jsonText t
  | list items => s.enclose level "[" "]" (jsonItems s (level + 1) items)
  | object pairs => s.enclose level "\x7b" "\x7d" (jsonPairs s (level + 1) pairs)

/-- The items of a list as JSON. -/
def jsonItems (s : Spacing) (level : Nat) : List Value → List String
  | [] => []
  | v :: vs => jsonAt s level v :: jsonItems s level vs

/-- The pairs of an object as JSON. -/
def jsonPairs (s : Spacing) (level : Nat) : List (String × Value) → List String
  | [] => []
  | (k, v) :: ps => (jsonText k ++ ": " ++ jsonAt s level v) :: jsonPairs s level ps

end

def json (s : Spacing) (v : Value) : String :=
  jsonAt s 0 v

mutual

/-- A value inside a message, with quotes around texts. -/
def display : Value → String
  | null => "None"
  | bool b => if b then "True" else "False"
  | integer n => toString n
  | float bits => Decimal.text64 bits
  | text t => Quoted.display t
  | list items => "[" ++ String.intercalate ", " (displayItems items) ++ "]"
  | object pairs => "\x7b" ++ String.intercalate ", " (displayPairs pairs) ++ "\x7d"

/-- The items of a list inside a message. -/
def displayItems : List Value → List String
  | [] => []
  | v :: vs => display v :: displayItems vs

/-- The pairs of an object inside a message. -/
def displayPairs : List (String × Value) → List String
  | [] => []
  | (k, v) :: ps => (Quoted.display k ++ ": " ++ display v) :: displayPairs ps

end

/-- A value of its own in a message: a text is shown as it is. -/
def plain : Value → String
  | text t => t
  | v => display v

end Value

end ILDump
