import ILDump.Module.Loader
import ILDump.Module.Recall

/-!
# Asking a loader

A loader can be asked for single texts, for what is attached to a row, and for parts of the
module, in any order and again. It keeps the names it got to know from one request to the
next, those from its preparation included, and also when a request ends in a fault.
-/

namespace ILDump

/-- Loads parts of a module with the names that are known, and gets to know more. -/
abbrev Loading (α : Type) : Type :=
  EStateM ModuleFault KnownNames α

namespace Recall

/-- Names something while loading. -/
def named {α : Type} (naming : Recall α) : Loading α := fun known =>
  match naming known with
  | .ok a known => .ok a known
  | .error e known => .error (.ofNaming e) known

/-! ### Attachments -/

def attributeOf (t : Tables) (r : AttributeRow) : Recall (Option (Token × CustomAttribute)) :=
  match r.parent?, r.constructor? with
  | some parent, some constructor => do
    let text ← tokenText t constructor
    return some (parent, ⟨text, r.value⟩)
  | _, _ => return none

def accessorsOfRow (t : Tables) (r : SemanticsRow) : Recall (List (Token × Nat × Accessor)) :=
  match r.association? with
  | some association =>
    if r.method = 0 then return []
    else
      (Attachments.directives r.flags).mapM fun d => do
        let text ← methodDefText t r.method []
        return (association, d.1, ⟨d.2, text⟩)
  | none => return []

def attachments (t : Tables) : Recall Attachments := do
  let attributes ← t.attributes.mapM (attributeOf t)
  let accessors ← t.semantics.mapM (accessorsOfRow t)
  return ⟨attributes.filterMap id, accessors.flatten⟩

/-- The name of the type around a type. -/
def around? (t : Tables) (number : Nat) : Recall (Option String) :=
  let outer := t.enclosing number
  if outer = 0 then return none else some <$> typeDefName t outer

/-! ### Method bodies -/

def operandText (t : Tables) (start : Nat) : Operand → Recall (Option String)
  | .none => return none
  | .integer n => return some (toString n)
  | .real32 bits => return some (Decimal.text32 bits)
  | .real64 bits => return some (Decimal.text64 bits)
  | .token token => return some (← tokenText t token)
  | .string token => return some (t.stringText token)
  | .target target => return some (Loader.targetText start target)
  | .targets targets =>
    return some ("(" ++ String.intercalate ", " (targets.map (Loader.targetText start)) ++ ")")
  | .argument number => return some ("A_" ++ toString number)
  | .localVariable number => return some ("V_" ++ toString number)

def instruction (t : Tables) (start : Nat) (i : CodeInstruction) : Recall Instruction := do
  let operand? ← operandText t start i.operand
  return ⟨i.address - start, i.mnemonic, operand?⟩

def handler (t : Tables) (c : CodeClause) : Recall Handler :=
  if c.flags % 8 = 0 then do
    let type ← typeName t ⟨c.last⟩
    return .catches (some type)
  else if c.flags.testBit 0 then return .filters (some c.last)
  else if c.flags.testBit 1 then return .cleanup "finally"
  else return .cleanup "fault"

def exceptionClause (t : Tables) (c : CodeClause) : Recall ExceptionClause := do
  let handler ← handler t c
  return Loader.clauseWith c handler

def locals? (t : Tables) (token : Token) : Recall (Option String) :=
  if token.table = TableNumber.standAloneSig then
    match Tables.row? t.standAloneSigs token.row with
    | some blob => do
      let types ← (AskingReader.locals (typeName t)).decode blob
      return some (Loader.localsText types)
    | none => return none
  else return none

def bodyOf (t : Tables) (c : Code) : Recall MethodBody := do
  let locals? ← locals? t c.localsToken
  let clauses ← c.clauses.mapM (exceptionClause t)
  let instructions ← c.instructions.mapM (instruction t c.start)
  return Loader.bodyWith c locals? clauses instructions

end Recall

namespace Loading

open Recall (named)

/-- Prepares loading. -/
def prepare (source : ModuleSource) : Loading Loader := do
  let attachments ← named (Recall.attachments source.tables)
  return { source, attachments }

variable (l : Loader)

def body (address : Nat) : Loading MethodBody := do
  let code ← KnownNames.lift (l.code address)
  named (Recall.bodyOf l.tables code)

/-! ### Members -/

def field (number : Nat) (r : FieldRow) : Loading FieldDefinition := do
  let type ← named (Recall.fieldType l.tables r.signature)
  return l.fieldWith number r type

def property (number : Nat) (r : PropertyRow) : Loading PropertyDefinition := do
  let signature ←
    named ((AskingReader.property (Recall.typeName l.tables)).decode r.signature)
  return l.propertyWith number r (TypeSig.signatureTexts signature)

def event (number : Nat) (r : EventRow) : Loading EventDefinition := do
  let type ← match r.type? with
    | some type => named (Recall.typeName l.tables type)
    | none => pure ""
  return l.eventWith number r type

def method (number : Nat) (r : MethodRow) : Loading MethodDefinition := do
  let signature ← named (Recall.methodSignature l.tables r.signature)
  let body? ← if Loader.hasBody r then some <$> body l r.address else pure none
  return l.methodWith number r signature body?

/-- Loads the rows of a run, leaving out rows that are not there. -/
def run {α β : Type} (load : Nat → α → Loading β) (rows : List α) (run : List Nat) :
    Loading (List β) :=
  (run.filterMap fun n => (Tables.row? rows n).map (n, ·)).mapM fun p => load p.1 p.2

/-! ### Types -/

def typeParts : Loading Loader.TypeParts := do
  let t := l.tables
  let interfaces ← t.interfaces.mapM fun r =>
    match r.interface? with
    | some token => do
      let name ← named (Recall.typeName t token)
      return [(r.type, name)]
    | none => return []
  let properties ← t.propertyMaps.mapM fun r => do
    let members ← run (property l) t.properties r.members
    return members.map (r.type, ·)
  let events ← t.eventMaps.mapM fun r => do
    let members ← run (event l) t.events r.members
    return members.map (r.type, ·)
  return ⟨interfaces.flatten, properties.flatten, events.flatten⟩

/-- A type without the types inside it. -/
def typeInfo (parts : Loader.TypeParts) (number : Nat) (r : TypeDefRow) : Loading TypeInfo := do
  let t := l.tables
  let extends? ← match r.extends? with
    | some base => some <$> named (Recall.typeName t base)
    | none => pure none
  let enclosing? ← named (Recall.around? t number)
  let fields ← run (field l) t.fields r.fields
  let methods ← run (method l) t.methods r.methods
  return l.typeWith parts number r extends? enclosing? fields methods

def types : Loading (List TypeDefinition) := do
  let parts ← typeParts l
  let infos ← (l.tables.typeDefs.mapIdx fun i r => (i + 1, r)).mapM fun p =>
    typeInfo l parts p.1 p.2
  return Loader.forest l.tables infos l.tables.typeDefs.length none

end Loading

/-! ### Requests -/

/-- What a loader can be asked for. -/
inductive Query where
  | tokenText (token : Token)
  | typeName (token : Token)
  | typeDefName (row : Nat)
  | typeRefName (row : Nat)
  | methodDefText (row : Nat) (arguments : List String)
  | fieldText (row : Nat)
  | memberRefText (row : Nat) (arguments : List String)
  | methodSpecText (row : Nat)
  | genericParameters (token : Token)
  | attributes (token : Token)
  | accessors (token : Token)
  | references
  | assembly
  | header
  | types

/-- What a query is answered with. -/
inductive Reply where
  | text (s : String)
  | texts (ss : List String)
  | attributes (found : List CustomAttribute)
  | accessors (found : List Accessor)
  | references (rs : List AssemblyReference)
  | assembly (a? : Option AssemblyIdentity)
  | header (h : ModuleHeader)
  | types (ts : List TypeDefinition)

/-- Answers a query. The path is only what the header names. -/
def Query.answer (l : Loader) (path : String) : Query → Loading Reply
  | tokenText token => .text <$> Recall.named (Recall.tokenText l.tables token)
  | typeName token => .text <$> Recall.named (Recall.typeName l.tables token)
  | typeDefName row => .text <$> Recall.named (Recall.typeDefName l.tables row)
  | typeRefName row => .text <$> Recall.named (Recall.typeRefName l.tables row)
  | methodDefText row arguments =>
    .text <$> Recall.named (Recall.methodDefText l.tables row arguments)
  | fieldText row => .text <$> Recall.named (Recall.fieldText l.tables row)
  | memberRefText row arguments =>
    .text <$> Recall.named (Recall.memberRefText l.tables row arguments)
  | methodSpecText row => .text <$> Recall.named (Recall.methodSpecText l.tables row)
  | genericParameters token => return .texts (l.tables.genericParameters token)
  | attributes token => return .attributes (l.attachments.attributesOf token)
  | accessors token => return .accessors (l.attachments.accessorsOf token)
  | references => return .references l.references
  | assembly => return .assembly l.assembly?
  | header => return .header (l.header path)
  | types => .types <$> Loading.types l

/-- The answer to a query, with the names that are known from then on. -/
def Query.respond (l : Loader) (path : String) (q : Query) (known : KnownNames) :
    Except ModuleFault Reply × KnownNames :=
  match q.answer l path known with
  | .ok reply known => (.ok reply, known)
  | .error e known => (.error e, known)

/-- Answers queries one after the other; a fault does not stop them. -/
def answers (l : Loader) (path : String) :
    List Query → KnownNames → List (Except ModuleFault Reply)
  | [], _ => []
  | q :: qs, known =>
    let (answer, known) := q.respond l path known
    answer :: answers l path qs known

end ILDump
