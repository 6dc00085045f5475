import ILDump.Module.Model
import ILDump.Unicode.Case

/-!
# The order of members

Siblings are listed by name, as declared, or by token. Names are compared by code point,
and sorting is stable: siblings with equal keys keep the order they were declared in.
Overloads share a name, so the key of a method has its signature as a second part, and
the key of a property its parameter list.
-/

namespace ILDump

/-- What siblings are sorted by: the name first, then a detail that tells overloads
    apart. -/
structure SortKey where
  name : String
  detail : String
deriving DecidableEq, Repr

/-- Whether a key may stand before another. -/
def SortKey.le (a b : SortKey) : Bool :=
  decide (a.name < b.name) || (a.name == b.name && !decide (b.detail < a.detail))

/-- Things that are listed among siblings of their kind. -/
class Listed (α : Type) where
  sortKey : α → SortKey
  token : α → Token

namespace Listed

/-- The part of a method's signature that tells overloads apart. -/
def signatureText (m : MethodDefinition) : String :=
  m.returnType ++ "(" ++ String.intercalate ", " m.parameters ++ ")"

instance : Listed TypeDefinition where
  sortKey t := ⟨t.info.fullName, ""⟩
  token t := t.info.token

instance : Listed FieldDefinition where
  sortKey f := ⟨f.name, ""⟩
  token f := f.token

instance : Listed MethodDefinition where
  sortKey m := ⟨m.name, signatureText m⟩
  token m := m.token

instance : Listed PropertyDefinition where
  sortKey p := ⟨p.name, String.intercalate ", " p.parameters⟩
  token p := p.token

instance : Listed EventDefinition where
  sortKey e := ⟨e.name, ""⟩
  token e := e.token

/-- Something that goes along with a sibling does not change its place. -/
instance {α β : Type} [Listed α] : Listed (α × β) where
  sortKey p := sortKey p.1
  token p := token p.1

end Listed

/-- The order in which siblings are listed. -/
inductive MemberOrder where
  | byName
  | asDeclared
  | byToken
deriving DecidableEq, Repr

namespace MemberOrder

def text : MemberOrder → String
  | byName => "name"
  | asDeclared => "declaration"
  | byToken => "token"

def all : List MemberOrder :=
  [asDeclared, byName, byToken]

def choices : String :=
  String.intercalate ", " (all.map text)

def ofText? (s : String) : Option MemberOrder :=
  all.find? fun o => o.text = s

/-- Reads an order in any letter case. -/
def ofName? (s : String) : Option MemberOrder :=
  ofText? (Unicode.lower s)

def unknownMessage (s : String) : String :=
  "Unknown member order '" ++ s ++ "' (expected one of: " ++ choices ++ ")"

/-- Puts siblings into an order. -/
def arrange {α : Type} [Listed α] : MemberOrder → List α → List α
  | byName, xs => xs.mergeSort fun a b => (Listed.sortKey a).le (Listed.sortKey b)
  | asDeclared, xs => xs
  | byToken, xs => xs.mergeSort fun a b => (Listed.token a).value ≤ (Listed.token b).value

theorem ofText?_text (o : MemberOrder) : ofText? o.text = some o := by
  cases o <;> decide

end MemberOrder

end ILDump
