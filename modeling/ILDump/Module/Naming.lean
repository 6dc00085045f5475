import ILDump.Metadata.Tables
import ILDump.Module.Model
import ILDump.Signature.Grammar
import ILDump.Text.Quoted

/-!
# Names of rows

Instructions, signatures and attributes refer to rows by token. Here each token gets the
text that stands for it in a listing. Types inside types are named after the type around
them, referenced types after the assembly or module they come from, members after their
type with their signature in front.

A row that is not there has a placeholder. Naming can fail: a type specification is a signature
of its own. And it need not end: a type may stand inside itself by way of others, the scope of
a referenced type may lead back to it, and a type specification may refer to itself. Names are
made to a depth of as many types as there are rows; what is still not named there has met some
row twice.
-/

namespace ILDump.Tables

/-- The placeholder for a row that is not there. -/
def placeholder (table : String) (row : Nat) : String :=
  "[" ++ table ++ " 0x" ++ Digits.hex .upper 6 row ++ "]"

/-! ### Types -/

/-- The row of the type around a type; zero if there is none. Of several rows that say so
    the last one counts. -/
def enclosing (t : Tables) (row : Nat) : Nat :=
  ((t.nestedClasses.reverse.find? fun r => r.nested = row).map (·.enclosing)).getD 0

/-- The row of the type around a type, unless it is the type itself. -/
def outer? (t : Tables) (row : Nat) : Option Nat :=
  let outer := t.enclosing row
  if outer = 0 ∨ outer = row then none else some outer

/-- The name of a defined type with at most `depth` types around it. -/
def typeDefNameWithin (t : Tables) : Nat → Nat → Except SignatureFault String
  | depth, number =>
    match row? t.typeDefs number with
    | none => .ok (placeholder "TypeDef" number)
    | some r =>
      match t.outer? number with
      | none => .ok (TypeInfo.qualify r.namespaceName r.name)
      | some outer =>
        match depth with
        | depth + 1 => do
          let around ← typeDefNameWithin t depth outer
          return around ++ "/" ++ r.name
        | 0 => .error .endless

/-- The name of a defined type. -/
def typeDefName (t : Tables) (row : Nat) : Except SignatureFault String :=
  t.typeDefNameWithin t.typeDefs.length row

/-- The name of a referenced type with at most `depth` types around it. -/
def typeRefNameWithin (t : Tables) : Nat → Nat → Except SignatureFault String
  | depth, number =>
    match row? t.typeRefs number with
    | none => .ok (placeholder "TypeRef" number)
    | some r =>
      let qualified := TypeInfo.qualify r.namespaceName r.name
      match r.scope? with
      | none => .ok qualified
      | some scope =>
        if scope.table = TableNumber.assemblyRef then
          match row? t.assemblyRefs scope.row with
          | some assembly => .ok ("[" ++ assembly.name ++ "]" ++ qualified)
          | none => .ok qualified
        else if scope.table = TableNumber.typeRef ∧ scope.row ≠ number then
          match depth with
          | depth + 1 => do
            let around ← typeRefNameWithin t depth scope.row
            return around ++ "/" ++ r.name
          | 0 => .error .endless
        else if scope.table = TableNumber.moduleRef then
          match row? t.moduleRefs scope.row with
          | some name => .ok ("[.module " ++ name ++ "]" ++ qualified)
          | none => .ok qualified
        else .ok qualified

def typeRefName (t : Tables) (row : Nat) : Except SignatureFault String :=
  t.typeRefNameWithin t.typeRefs.length row

/-- The name of a type token, through at most `depth` type specifications. -/
def typeNameWithin (t : Tables) : Nat → Token → Except SignatureFault String
  | depth, token =>
    if token.table = TableNumber.typeDef then t.typeDefName token.row
    else if token.table = TableNumber.typeRef then t.typeRefName token.row
    else if token.table = TableNumber.typeSpec then
      match row? t.typeSpecs token.row with
      | some signature =>
        match depth with
        | depth + 1 => ((Reader.type (typeNameWithin t depth)).decode signature).map TypeSig.text
        | 0 => .error .endless
      | none => .ok token.text
    else .ok token.text

def typeName (t : Tables) (token : Token) : Except SignatureFault String :=
  t.typeNameWithin t.typeSpecs.length token

/-- The name of the type around a type. -/
def around? (t : Tables) (number : Nat) : Except SignatureFault (Option String) :=
  let outer := t.enclosing number
  if outer = 0 then return none else some <$> t.typeDefName outer

/-- The generic parameters of a type or method by their numbers. -/
def genericParameters (t : Tables) (owner : Token) : List String :=
  let owned := t.genericParams.filter fun g => g.owner? = some owner
  let sorted := owned.mergeSort fun a b =>
    decide (a.number < b.number) || (a.number == b.number && !decide (b.name < a.name))
  sorted.map (·.name)

/-! ### Members -/

/-- The row of the type whose run of members has a row; zero if there is none. Of several
    runs the last one counts. -/
def ownerIn (runs : List (List Nat)) (member : Nat) : Nat :=
  let numbered := runs.mapIdx fun i run => (i + 1, run)
  ((numbered.reverse.find? fun p => p.2.contains member).map (·.1)).getD 0

def fieldOwner (t : Tables) (row : Nat) : Nat :=
  ownerIn (t.typeDefs.map (·.fields)) row

def methodOwner (t : Tables) (row : Nat) : Nat :=
  ownerIn (t.typeDefs.map (·.methods)) row

/-- A method signature read from a blob, with its types as texts. -/
def methodSignature (t : Tables) (blob : Bytes) :
    Except SignatureFault (MethodSig String) :=
  ((Reader.method t.typeName).decode blob).map TypeSig.signatureTexts

def fieldType (t : Tables) (blob : Bytes) : Except SignatureFault String :=
  ((Reader.field t.typeName).decode blob).map TypeSig.text

/-- A method with owner and signature. -/
def methodText (owner name : String) (s : MethodSig String) (arguments : List String) :
    String :=
  let name :=
    if arguments.isEmpty then name
    else name ++ "<" ++ String.intercalate ", " arguments ++ ">"
  String.intercalate " " (s.callingConvention ++ [s.returnType]) ++ " " ++ owner ++ "::" ++
    name ++ "(" ++ String.intercalate ", " (parameterTexts s.parameters) ++ ")"

/-- The text of a defined method, with type arguments if it is used with some. Its owner is
    named before its signature is read. -/
def methodDefText (t : Tables) (number : Nat) (arguments : List String) :
    Except SignatureFault String :=
  match row? t.methods number with
  | none => .ok (placeholder "MethodDef" number)
  | some r => do
    let owner ← t.typeDefName (t.methodOwner number)
    let s ← t.methodSignature r.signature
    return methodText owner r.name s arguments

def fieldText (t : Tables) (number : Nat) : Except SignatureFault String :=
  match row? t.fields number with
  | none => .ok (placeholder "Field" number)
  | some r => do
    let owner ← t.typeDefName (t.fieldOwner number)
    let type ← t.fieldType r.signature
    return type ++ " " ++ owner ++ "::" ++ r.name

/-- What a referenced member belongs to. -/
def memberRefOwner (t : Tables) : Option Token → Except SignatureFault String
  | none => .ok ""
  | some parent =>
    if parent.table = TableNumber.method then t.typeDefName (t.methodOwner parent.row)
    else if parent.table = TableNumber.moduleRef then
      match row? t.moduleRefs parent.row with
      | some name => .ok ("[.module " ++ name ++ "]")
      | none => .ok ""
    else t.typeName parent

/-- Whether a member signature is the one of a field. -/
def isFieldSignature (blob : Bytes) : Bool :=
  blob.head?.any fun b => b.toNat % 16 = 6

def memberRefText (t : Tables) (number : Nat) (arguments : List String) :
    Except SignatureFault String :=
  match row? t.memberRefs number with
  | none => .ok (placeholder "MemberRef" number)
  | some r => do
    let owner ← t.memberRefOwner r.parent?
    if isFieldSignature r.signature then
      let type ← t.fieldType r.signature
      return type ++ " " ++ owner ++ "::" ++ r.name
    else
      let s ← t.methodSignature r.signature
      return methodText owner r.name s arguments

/-- The text of a generic method with its type arguments. -/
def methodSpecText (t : Tables) (number : Nat) : Except SignatureFault String :=
  match row? t.methodSpecs number with
  | none => .ok (placeholder "MethodSpec" number)
  | some r => do
    let types ← (Reader.instantiation t.typeName).decode r.instantiation
    let arguments := types.map TypeSig.text
    match r.method? with
    | some method =>
      if method.table = TableNumber.method then t.methodDefText method.row arguments
      else if method.table = TableNumber.memberRef then t.memberRefText method.row arguments
      else return placeholder "MethodSpec" number
    | none => return placeholder "MethodSpec" number

/-! ### Tokens -/

def userString? (t : Tables) (offset : Nat) : Option String :=
  Heap.userString? t.userStrings offset

/-- The literal that a token stands for, or a placeholder. -/
def stringText (t : Tables) (token : Token) : String :=
  match t.userString? token.row with
  | some s => Quoted.literal s
  | none => "[string 0x" ++ Digits.hex .upper 8 token.value ++ "]"

/-- The text that stands for a token in a listing. -/
def tokenText (t : Tables) (token : Token) : Except SignatureFault String :=
  if token.table = TableNumber.typeDef ∨ token.table = TableNumber.typeRef ∨
      token.table = TableNumber.typeSpec then
    t.typeName token
  else if token.table = TableNumber.method then t.methodDefText token.row []
  else if token.table = TableNumber.field then t.fieldText token.row
  else if token.table = TableNumber.memberRef then t.memberRefText token.row []
  else if token.table = TableNumber.methodSpec then t.methodSpecText token.row
  else if token.table = TableNumber.userString then .ok (t.stringText token)
  else .ok token.text

end ILDump.Tables
