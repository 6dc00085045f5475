import ILDump.Module.Naming
import ILDump.Signature.Asking

/-!
# Remembered names

Most texts of a listing name defined types, and a type inside others is named after all of
them. So the name of a defined type is kept once it was made, together with the names of the
types around it that were made on the way. Everything else is made anew each time. A text that
cannot be made leaves behind the names that were found for it.
-/

namespace ILDump

/-- Names of defined types by their rows. -/
abbrev KnownNames : Type :=
  List (Nat × String)

/-- Makes texts from the names that are known already, and gets to know more. -/
abbrev Recall (α : Type) : Type :=
  Answering KnownNames α

/-- An outcome that needs no names, and leaves them as they are. -/
def KnownNames.lift {ε α : Type} (x : Except ε α) : EStateM ε KnownNames α := fun known =>
  match x with
  | .ok a => .ok a known
  | .error e => .error e known

namespace Recall

/-! ### Types -/

/-- The name of a defined type with at most `depth` types around it that are not known. -/
def typeDefNameWithin (t : Tables) : Nat → Nat → Recall String
  | depth, number => do
    match (← get).lookup number with
    | some name => return name
    | none =>
      match Tables.row? t.typeDefs number with
      | none => return Tables.placeholder "TypeDef" number
      | some r =>
        let name ←
          match t.outer? number with
          | none => pure (TypeInfo.qualify r.namespaceName r.name)
          | some outer =>
            match depth with
            | depth + 1 => do
              let around ← typeDefNameWithin t depth outer
              pure (around ++ "/" ++ r.name)
            | 0 => throw .endless
        modify ((number, name) :: ·)
        return name

def typeDefName (t : Tables) (row : Nat) : Recall String :=
  typeDefNameWithin t t.typeDefs.length row

/-- The name of a referenced type, which is made anew each time. -/
def typeRefName (t : Tables) (row : Nat) : Recall String :=
  KnownNames.lift (t.typeRefName row)

/-- The name of a type token, through at most `depth` type specifications. -/
def typeNameWithin (t : Tables) : Nat → Token → Recall String
  | depth, token =>
    if token.table = TableNumber.typeDef then typeDefName t token.row
    else if token.table = TableNumber.typeRef then typeRefName t token.row
    else if token.table = TableNumber.typeSpec then
      match Tables.row? t.typeSpecs token.row with
      | some signature =>
        match depth with
        | depth + 1 =>
          TypeSig.text <$> (AskingReader.type (typeNameWithin t depth)).decode signature
        | 0 => throw .endless
      | none => pure token.text
    else pure token.text

def typeName (t : Tables) (token : Token) : Recall String :=
  typeNameWithin t t.typeSpecs.length token

/-! ### Members -/

def methodSignature (t : Tables) (blob : Bytes) : Recall (MethodSig String) :=
  TypeSig.signatureTexts <$> (AskingReader.method (typeName t)).decode blob

def fieldType (t : Tables) (blob : Bytes) : Recall String :=
  TypeSig.text <$> (AskingReader.field (typeName t)).decode blob

/-- The text of a defined method; its owner is named first. -/
def methodDefText (t : Tables) (number : Nat) (arguments : List String) : Recall String :=
  match Tables.row? t.methods number with
  | none => pure (Tables.placeholder "MethodDef" number)
  | some r => do
    let owner ← typeDefName t (t.methodOwner number)
    let s ← methodSignature t r.signature
    return Tables.methodText owner r.name s arguments

def fieldText (t : Tables) (number : Nat) : Recall String :=
  match Tables.row? t.fields number with
  | none => pure (Tables.placeholder "Field" number)
  | some r => do
    let owner ← typeDefName t (t.fieldOwner number)
    let type ← fieldType t r.signature
    return type ++ " " ++ owner ++ "::" ++ r.name

def memberRefOwner (t : Tables) : Option Token → Recall String
  | none => pure ""
  | some parent =>
    if parent.table = TableNumber.method then typeDefName t (t.methodOwner parent.row)
    else if parent.table = TableNumber.moduleRef then
      match Tables.row? t.moduleRefs parent.row with
      | some name => pure ("[.module " ++ name ++ "]")
      | none => pure ""
    else typeName t parent

def memberRefText (t : Tables) (number : Nat) (arguments : List String) : Recall String :=
  match Tables.row? t.memberRefs number with
  | none => pure (Tables.placeholder "MemberRef" number)
  | some r => do
    let owner ← memberRefOwner t r.parent?
    if Tables.isFieldSignature r.signature then
      let type ← fieldType t r.signature
      return type ++ " " ++ owner ++ "::" ++ r.name
    else
      let s ← methodSignature t r.signature
      return Tables.methodText owner r.name s arguments

def methodSpecText (t : Tables) (number : Nat) : Recall String :=
  match Tables.row? t.methodSpecs number with
  | none => pure (Tables.placeholder "MethodSpec" number)
  | some r => do
    let types ← (AskingReader.instantiation (typeName t)).decode r.instantiation
    let arguments := types.map TypeSig.text
    match r.method? with
    | some method =>
      if method.table = TableNumber.method then methodDefText t method.row arguments
      else if method.table = TableNumber.memberRef then memberRefText t method.row arguments
      else return Tables.placeholder "MethodSpec" number
    | none => return Tables.placeholder "MethodSpec" number

/-- The text that stands for a token in a listing. -/
def tokenText (t : Tables) (token : Token) : Recall String :=
  if token.table = TableNumber.typeDef ∨ token.table = TableNumber.typeRef ∨
      token.table = TableNumber.typeSpec then
    typeName t token
  else if token.table = TableNumber.method then methodDefText t token.row []
  else if token.table = TableNumber.field then fieldText t token.row
  else if token.table = TableNumber.memberRef then memberRefText t token.row []
  else if token.table = TableNumber.methodSpec then methodSpecText t token.row
  else if token.table = TableNumber.userString then pure (t.stringText token)
  else pure token.text

end Recall

end ILDump
