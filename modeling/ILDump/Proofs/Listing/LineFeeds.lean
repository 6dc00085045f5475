import ILDump.Proofs.Listing.ByteRows
import ILDump.Proofs.Listing.Completeness
import ILDump.Proofs.Listing.Identifiers
import ILDump.Proofs.Listing.Orders
import ILDump.Proofs.Text.LineFeeds
import ILDump.Proofs.Text.Numerals

/-!
# Line feeds in a listing

One step writes one line only if its text has no line feed. The words and numbers that a listing
brings in itself have none, and quoting neither adds nor removes any. So the line feeds of a
listing are those that end its lines and those of the texts it was given, each counted as often as
it is written: most names stand in a head, and once more, unquoted, in the comment at the end of
their block.
-/

namespace ILDump

/-! ### Numbers and names -/

@[simp] theorem feeds_hex (letters : Digits.LetterCase) (width n : Nat) :
    feeds (Digits.hex letters width n) = 0 :=
  feeds_eq_zero fun h => absurd (Digits.isAlphanum_of_mem_hex h) (by decide)

@[simp] theorem feeds_repr (n : Nat) : feeds n.repr = 0 := by
  rw [← Nat.toString_eq_repr]
  exact feeds_eq_zero (not_mem_toString (by decide))

theorem feeds_toString_int (n : Int) : feeds (toString n) = 0 :=
  feeds_eq_zero fun h => (mem_toString_int h).elim (by decide) (by decide)

theorem feeds_row (bytes : Bytes) : feeds (ByteRows.row bytes) = 0 := by
  refine feeds_eq_zero fun h => ?_
  rw [ByteRows.row, String.toList_join, List.mem_flatMap] at h
  obtain ⟨s, hs, h⟩ := h
  obtain ⟨b, -, rfl⟩ := List.mem_map.mp hs
  rw [String.toList_append, List.mem_append, Digits.hexByte, String.toList_ofList] at h
  rcases h with h | h
  · exact absurd (Digits.isAlphanum_of_mem_hexWord h) (by decide)
  · exact absurd h (by decide)

/-- Quoting leaves every line feed in its place and brings in none. -/
theorem count_escape (cs : List Char) :
    (Quoted.escape Quoted.identifierLetter? cs).count '\n' = cs.count '\n' := by
  induction cs with
  | nil => rfl
  | cons c cs ih =>
    rw [Quoted.escape]
    cases h : Quoted.identifierLetter? c with
    | none => rw [List.count_cons, ih, List.count_cons]
    | some l =>
      rw [Identifier.eq_of_identifierLetter? h, List.count_cons_of_ne (by decide), List.count_cons,
        ih, List.count_cons]

@[simp] theorem feeds_escape (name : String) : feeds (Identifier.escape name) = feeds name := by
  unfold Identifier.escape Identifier.escapeWith
  split
  · rfl
  · have hquote : feeds "'" = 0 := by decide
    rw [Quoted.identifier, feeds_append, feeds_append, hquote, Nat.zero_add, Nat.add_zero, feeds,
      String.toList_ofList, count_escape]
    rfl

theorem feeds_pieces (name : String) :
    feedsIn ((name.toList.splitOn '.').map String.ofList) = feeds name := by
  have hjoined : feeds (String.intercalate "." ((name.toList.splitOn '.').map String.ofList)) =
      feedsIn ((name.toList.splitOn '.').map String.ofList) := feeds_intercalate (by decide) _
  rw [← hjoined]
  congr 1
  rw [← String.toList_inj, String.toList_intercalate, List.map_map]
  have hread : String.toList ∘ String.ofList = id := funext fun _ => String.toList_ofList
  rw [hread, List.map_id]
  exact List.intercalate_splitOn '.'

@[simp] theorem feeds_escapeDotted (name : String) :
    feeds (Identifier.escapeDotted name) = feeds name := by
  unfold Identifier.escapeDotted Identifier.escapeDottedWith
  split
  · rfl
  · rw [feeds_intercalate (by decide), ← feeds_pieces name]
    exact feedsIn_map fun piece _ => feeds_escape (String.ofList piece)

namespace Listing

open Step

/-! ### Steps -/

/-- How many line feeds the lines among some steps have together. -/
def lineFeeds (steps : List Step) : Nat :=
  feedsIn (lines steps)

@[simp] theorem lineFeeds_nil : lineFeeds [] = 0 := rfl

@[simp] theorem lineFeeds_line (s : String) (steps : List Step) :
    lineFeeds (.line s :: steps) = feeds s + lineFeeds steps := rfl

@[simp] theorem lineFeeds_append (xs ys : List Step) :
    lineFeeds (xs ++ ys) = lineFeeds xs + lineFeeds ys := by
  rw [lineFeeds, lines, List.filterMap_append, feedsIn_append]
  rfl

@[simp] theorem lineFeeds_ite (p : Prop) [Decidable p] (xs ys : List Step) :
    lineFeeds (if p then xs else ys) = if p then lineFeeds xs else lineFeeds ys :=
  apply_ite lineFeeds p xs ys

@[simp] theorem lineFeeds_deeper (steps : List Step) :
    lineFeeds (deeper steps) = lineFeeds steps := by
  simp [deeper, lineFeeds, lines]

theorem lineFeeds_flatMap {α : Type} {f : α → List Step} {texts : α → List String} {xs : List α}
    (h : ∀ x ∈ xs, lineFeeds (f x) = feedsIn (texts x)) :
    lineFeeds (xs.flatMap f) = feedsIn (xs.flatMap texts) := by
  induction xs with
  | nil => rfl
  | cons x xs ih =>
    rw [List.flatMap_cons, List.flatMap_cons, lineFeeds_append, feedsIn_append,
      h x List.mem_cons_self, ih fun x hx => h x (List.mem_cons_of_mem _ hx)]

theorem lineFeeds_map_line {α : Type} {f : α → String} {texts : α → List String} {xs : List α}
    (h : ∀ x, feeds (f x) = feedsIn (texts x)) :
    lineFeeds (xs.map fun x => .line (f x)) = feedsIn (xs.flatMap texts) := by
  rw [List.map_eq_flatMap]
  exact lineFeeds_flatMap fun x _ => h x

theorem feeds_words (ws : List String) : feeds (words ws) = feedsIn ws :=
  feeds_intercalate (by decide) ws

theorem feeds_commas (ws : List String) : feeds (commas ws) = feedsIn ws :=
  feeds_intercalate (by decide) ws

/-- The empty words that are left out have no line feeds. -/
theorem feeds_nonemptyWords (ws : List String) : feeds (nonemptyWords ws) = feedsIn ws := by
  rw [nonemptyWords, feeds_words]
  induction ws with
  | nil => rfl
  | cons w ws ih =>
    rw [List.filter_cons, feedsIn_cons, ← ih]
    split
    · rfl
    · next hempty =>
      have hw : w = "" := by simpa using hempty
      rw [hw, feeds_eq_zero (by decide), Nat.zero_add]

theorem feeds_withGenerics (name : String) (generics : List String) :
    feeds (withGenerics name generics) = feeds name + feedsIn generics := by
  unfold withGenerics
  split
  · next hempty => rw [List.isEmpty_iff.mp hempty, feedsIn_nil, Nat.add_zero]
  · simp (disch := decide) [feeds_commas, feeds_eq_zero]

theorem feeds_label (offset : Int) : feeds (label offset) = 0 := by
  refine feeds_eq_zero fun h => ?_
  rw [label, String.toList_append, List.mem_append] at h
  rcases h with h | h
  · exact absurd h (by decide)
  · exact absurd (Digits.mem_hexInt h) (by decide)

/-! ### Rows of bytes -/

theorem feedsIn_rows (perLine : Nat) (data : Bytes) : feedsIn (ByteRows.rows perLine data) = 0 := by
  unfold ByteRows.rows
  split
  · rfl
  · refine feedsIn_eq_zero_iff.mpr fun s hs => ?_
    obtain ⟨bytes, -, rfl⟩ := List.mem_map.mp hs
    exact feeds_row bytes

theorem feedsIn_map_append {front : String} (h : feeds front = 0) (texts : List String) :
    feedsIn (texts.map (front ++ ·)) = feedsIn texts := by
  have heach (s : String) : feeds (front ++ s) = feeds s := by
    rw [feeds_append, h, Nat.zero_add]
  rw [feedsIn_map fun s _ => heach s, List.map_id']

/-- A directive with bytes has no line feeds but its own: its first line has the directive, since
    there is always a first row. -/
theorem feedsIn_byteLines (directive : String) (data : Bytes) :
    feedsIn (byteLines directive data) = feeds directive := by
  obtain ⟨before, last, first, others, hrows, hclosed, hlines⟩ := exists_byteLines_eq directive data
  have hopen : feeds " = (" = 0 := by decide
  have hparenthesis : feeds ")" = 0 := by decide
  have hmargin :
      feeds (String.ofList (List.replicate (directive.length + 4) ' ')) = 0 :=
    feeds_eq_zero (by simp)
  have hfeeds := feedsIn_rows 16 data
  have hsame : feedsIn (first :: others) = feedsIn (ByteRows.rows 16 data) := by
    rw [← hclosed, hrows]
    simp [hparenthesis]
  rw [← hsame, feedsIn_cons] at hfeeds
  rw [hlines, feedsIn_cons, feeds_append, feeds_append, hopen, feedsIn_map_append hmargin]
  omega

theorem lineFeeds_byteDirective (directive : String) (data : Bytes) :
    lineFeeds (byteDirective directive data) = feeds directive := by
  have hlines : lineFeeds (byteDirective directive data) =
      feedsIn ((byteLines directive data).flatMap fun line => [line]) :=
    lineFeeds_map_line fun _ => rfl
  rw [hlines, List.flatMap_singleton', feedsIn_byteLines]

/-! ### The texts of each part -/

def attributeTexts (attributes : List CustomAttribute) : List String :=
  attributes.flatMap fun a => [a.constructorText]

theorem lineFeeds_customAttributes (attributes : List CustomAttribute) :
    lineFeeds (customAttributes attributes) = feedsIn (attributeTexts attributes) := by
  refine lineFeeds_flatMap fun a _ => ?_
  have hdirective : feeds ".custom " = 0 := by decide
  split
  · simp [hdirective]
  · simp [lineFeeds_byteDirective, hdirective]

theorem lineFeeds_culture (name : String) : lineFeeds (culture name) = feeds name := by
  unfold culture
  split
  · next hname =>
    rw [hname]
    rfl
  · simp (disch := decide) [feeds_eq_zero]

theorem feeds_versionText (parts : List Int) : feeds (versionText parts) = 0 := by
  rw [versionText, feeds_intercalate (by decide), feedsIn_eq_zero_iff]
  intro s hs
  obtain ⟨n, -, rfl⟩ := List.mem_map.mp hs
  exact feeds_toString_int n

def referenceTexts (r : AssemblyReference) : List String :=
  [r.name, r.culture]

theorem lineFeeds_reference (r : AssemblyReference) :
    lineFeeds (reference r) = feedsIn (referenceTexts r) := by
  have hdirective : feeds (if r.isRetargetable then ".assembly extern retargetable"
      else ".assembly extern") = 0 := by
    split <;> decide
  have hkey : feeds (if r.hasFullKey then ".publickey" else ".publickeytoken") = 0 := by
    split <;> decide
  simp (disch := decide) [reference, referenceTexts, hdirective, hkey, lineFeeds_byteDirective,
    lineFeeds_culture, feeds_versionText, feeds_eq_zero]

def referencesTexts (image : ModuleImage) : List String :=
  image.references.flatMap referenceTexts

theorem lineFeeds_references (image : ModuleImage) :
    lineFeeds (references image) = feedsIn (referencesTexts image) := by
  have hempty : feeds "" = 0 := rfl
  rw [references, lineFeeds_append, lineFeeds_flatMap fun r _ => lineFeeds_reference r]
  simp [hempty, referencesTexts]

theorem feeds_commented (line : String) {comment? : Option String}
    (h : ∀ comment ∈ comment?, feeds comment = 0) :
    feeds (commented line comment?) = feeds line := by
  cases comment? with
  | none => rfl
  | some comment =>
    have hmark : feeds " // " = 0 := by decide
    rw [commented, feeds_append, feeds_append, hmark, h comment rfl, Nat.add_zero]

theorem feeds_hashAlgorithm {algorithm : Nat} :
    ∀ comment ∈ hashAlgorithm? algorithm, feeds comment = 0 := by
  unfold hashAlgorithm?
  split <;> simp (disch := decide) [feeds_eq_zero]

theorem feeds_subsystem {subsystem : Nat} :
    ∀ comment ∈ subsystem? subsystem, feeds comment = 0 := by
  unfold subsystem?
  split <;> simp (disch := decide) [feeds_eq_zero]

theorem feeds_corFlags {flags : Nat} : ∀ comment ∈ corFlagsComment? flags, feeds comment = 0 := by
  intro comment hcomment
  unfold corFlagsComment? at hcomment
  extract_lets names at hcomment
  split at hcomment
  · cases hcomment
  · obtain rfl := Option.some.inj hcomment
    rw [feeds_commas, feedsIn_eq_zero_iff]
    have htable : ∀ f ∈ corFlags, feeds f.2 = 0 := by decide
    intro s hs
    obtain ⟨f, hf, rfl⟩ := List.mem_map.mp hs
    exact htable f (List.mem_of_mem_filter hf)

def assemblyTexts (image : ModuleImage) : List String :=
  image.assembly?.toList.flatMap fun a =>
    [a.name] ++ attributeTexts a.customAttributes ++ [a.culture]

theorem lineFeeds_assembly (image : ModuleImage) :
    lineFeeds (assembly image) = feedsIn (assemblyTexts image) := by
  unfold assembly assemblyTexts
  cases image.assembly? with
  | none => rfl
  | some a =>
    have hdirective : feeds (if a.isRetargetable then ".assembly retargetable"
        else ".assembly") = 0 := by
      split <;> decide
    simp (disch := decide) [identity, hdirective, lineFeeds_customAttributes,
      lineFeeds_byteDirective, feeds_commented _ feeds_hashAlgorithm, lineFeeds_culture,
      feeds_versionText, feeds_eq_zero]

def headerTexts (image : ModuleImage) : List String :=
  image.header.name :: attributeTexts image.header.customAttributes

theorem lineFeeds_moduleHeader (image : ModuleImage) :
    lineFeeds (moduleHeader image true) = feedsIn (headerTexts image) := by
  simp (disch := decide) [moduleHeader, headerTexts, lineFeeds_customAttributes,
    feeds_commented _ feeds_subsystem, feeds_commented _ feeds_corFlags, feeds_eq_zero]

/-! ### The texts of members -/

def fieldTexts (f : FieldDefinition) : List String :=
  f.attributes ++ [f.fieldType, f.name] ++ f.constant?.toList ++ attributeTexts f.customAttributes

theorem lineFeeds_field (f : FieldDefinition) :
    lineFeeds (field f) = feedsIn (fieldTexts f) := by
  unfold field fieldTexts
  cases f.constant? <;>
    simp (disch := decide) [feeds_words, lineFeeds_customAttributes, feeds_eq_zero, Nat.add_assoc]

def instructionTexts (i : Instruction) : List String :=
  i.mnemonic :: i.operand?.toList

theorem feeds_instruction (i : Instruction) :
    feeds (instruction i) = feedsIn (instructionTexts i) := by
  unfold instruction instructionTexts
  cases i.operand? <;> simp (disch := decide) [feeds_label, feeds_eq_zero]

def clauseTexts (c : ExceptionClause) : List String :=
  match c.handler with
  | .catches type? => type?.toList
  | .filters _ => []
  | .cleanup keyword => [keyword]

theorem feeds_exceptionClause (c : ExceptionClause) :
    feeds (exceptionClause c) = feedsIn (clauseTexts c) := by
  have hhandler : feeds (handlerText c.handler) = feedsIn (clauseTexts c) := by
    unfold clauseTexts
    cases c.handler with
    | catches type? =>
      cases type? with
      | none => decide
      | some type =>
        by_cases htype : type = ""
        · rw [htype]
          decide
        · simp (disch := decide) [handlerText, htype, feeds_eq_zero]
    | filters start? => simp (disch := decide) [handlerText, feeds_label, feeds_eq_zero]
    | cleanup keyword => simp (disch := decide) [handlerText, feeds_eq_zero]
  simp (disch := decide) [exceptionClause, feeds_label, hhandler, feeds_eq_zero]

def bodyTexts (b : MethodBody) : List String :=
  b.locals?.toList ++ b.instructions.flatMap instructionTexts ++
    b.exceptionClauses.flatMap clauseTexts

theorem lineFeeds_localVariables (b : MethodBody) :
    lineFeeds (localVariables b) = feedsIn b.locals?.toList := by
  unfold localVariables
  cases b.locals? with
  | none => rfl
  | some locals =>
    have hdirective : feeds (if b.initLocals then ".locals init" else ".locals") = 0 := by
      split <;> decide
    by_cases hlocals : locals = ""
    · subst hlocals
      rfl
    · simp (disch := decide) [hlocals, hdirective, feeds_eq_zero]

theorem lineFeeds_body (b : MethodBody) : lineFeeds (body b) = feedsIn (bodyTexts b) := by
  simp (disch := decide) [body, bodyTexts, lineFeeds_localVariables,
    lineFeeds_map_line feeds_instruction, lineFeeds_map_line feeds_exceptionClause, feeds_eq_zero]

def methodTexts (owner : TypeInfo) (m : MethodDefinition) : List String :=
  m.attributes ++ m.callingConvention ++ [m.returnType, m.name] ++ m.genericParameters ++
    m.parameters ++ m.implAttributes ++ attributeTexts m.customAttributes ++
    m.body?.toList.flatMap bodyTexts ++ [owner.name, m.name]

theorem feeds_methodHead (m : MethodDefinition) :
    feeds (methodHead m) = feedsIn (m.attributes ++ m.callingConvention ++ [m.returnType, m.name] ++
      m.genericParameters ++ m.parameters ++ m.implAttributes) := by
  simp (disch := decide) [methodHead, feeds_words, feeds_commas, feeds_withGenerics, feeds_eq_zero,
    Nat.add_assoc]

theorem lineFeeds_method (owner : TypeInfo) (m : MethodDefinition) :
    lineFeeds (method owner m) = feedsIn (methodTexts owner m) := by
  unfold method methodTexts
  rw [feedsIn_append, feedsIn_append, feedsIn_append, ← feeds_methodHead]
  cases m.body? <;>
    simp (disch := decide) [lineFeeds_customAttributes, lineFeeds_body, feeds_eq_zero,
      Nat.add_assoc]

def blockTexts (attributes : List CustomAttribute) (accessors : List Accessor) : List String :=
  attributeTexts attributes ++ accessors.flatMap fun a => [a.directive, a.method]

theorem lineFeeds_memberBlock (attributes : List CustomAttribute) (accessors : List Accessor) :
    lineFeeds (memberBlock attributes accessors) = feedsIn (blockTexts attributes accessors) := by
  have haccessor (a : Accessor) :
      feeds (a.directive ++ " " ++ a.method) = feedsIn [a.directive, a.method] := by
    simp (disch := decide) [feeds_eq_zero]
  simp [memberBlock, blockTexts, lineFeeds_customAttributes, lineFeeds_map_line haccessor]

def propertyTexts (p : PropertyDefinition) : List String :=
  p.attributes ++ p.callingConvention ++ [p.propertyType, p.name] ++ p.parameters ++
    blockTexts p.customAttributes p.accessors ++ [p.name]

theorem lineFeeds_property (p : PropertyDefinition) :
    lineFeeds (property p) = feedsIn (propertyTexts p) := by
  simp (disch := decide) [property, propertyTexts, feeds_nonemptyWords, feeds_commas,
    lineFeeds_memberBlock, feeds_eq_zero, Nat.add_assoc]

def eventTexts (e : EventDefinition) : List String :=
  e.attributes ++ [e.eventType, e.name] ++ blockTexts e.customAttributes e.accessors ++ [e.name]

theorem lineFeeds_event (e : EventDefinition) :
    lineFeeds (event e) = feedsIn (eventTexts e) := by
  simp (disch := decide) [event, eventTexts, feeds_nonemptyWords, lineFeeds_memberBlock,
    feeds_eq_zero, Nat.add_assoc]

/-! ### The texts of types -/

def headTexts (t : TypeInfo) : List String :=
  t.attributes ++ [if t.isNested then t.name else t.fullName] ++ t.genericParameters

theorem feeds_typeHead (t : TypeInfo) : feeds (typeHead t) = feedsIn (headTexts t) := by
  have hname : feeds (if t.isNested then Identifier.escape t.name
      else Identifier.escapeDotted t.fullName) =
        feeds (if t.isNested then t.name else t.fullName) := by
    split <;> simp
  simp (disch := decide) [typeHead, headTexts, feeds_words, feeds_withGenerics, hname,
    feeds_eq_zero]

theorem lineFeeds_heritage (t : TypeInfo) :
    lineFeeds (heritage t) = feedsIn (t.extends?.toList ++ t.implements) := by
  have himplements : lineFeeds (if t.implements.isEmpty then []
      else [.line ("implements " ++ commas t.implements)]) = feedsIn t.implements := by
    cases t.implements with
    | nil => rfl
    | cons i is => simp (disch := decide) [feeds_commas, feeds_eq_zero]
  rw [heritage, lineFeeds_deeper, lineFeeds_append, feedsIn_append, himplements]
  congr 1
  cases t.extends? with
  | none => rfl
  | some base =>
    by_cases hempty : base = ""
    · subst hempty
      rfl
    · simp (disch := decide) [hempty, feeds_eq_zero]

theorem lineFeeds_group {α : Type} (heading : String) (hheading : feeds heading = 0)
    (members : List α) {f : α → List Step} {texts : α → List String}
    (h : ∀ m ∈ members, lineFeeds (f m) = feedsIn (texts m)) :
    lineFeeds (group heading (members.map f)) = feedsIn (members.flatMap texts) := by
  rw [← lineFeeds_flatMap h, group, List.isEmpty_map]
  split
  · next hempty =>
    rw [List.isEmpty_iff.mp hempty]
    rfl
  · simp (disch := decide) [hheading, ← List.flatMap_def, feeds_eq_zero]

/-- The texts of a type without the types in it. -/
def typeTexts (t : TypeInfo) : List String :=
  headTexts t ++ t.extends?.toList ++ t.implements ++ attributeTexts t.customAttributes ++
    t.fields.flatMap fieldTexts ++ t.methods.flatMap (methodTexts t) ++
    t.properties.flatMap propertyTexts ++ t.events.flatMap eventTexts ++ [t.fullName]

/-- By induction on the type, in the order of declaration. -/
theorem lineFeeds_type : ∀ (t : TypeDefinition) (outer? : Option Token),
    lineFeeds (type .asDeclared t) =
      feedsIn ((t.entries outer?).flatMap fun e => typeTexts e.2)
  | .node info nested, outer? => by
    have hnested : lineFeeds (group "Nested Types" (nested.map (type .asDeclared))) =
        feedsIn ((TypeDefinition.entriesOfEach (some info.token) nested).flatMap fun e =>
          typeTexts e.2) := by
      rw [TypeDefinition.entriesOfEach_eq_flatMap, List.flatMap_assoc]
      exact lineFeeds_group "Nested Types" (by decide) nested fun t ht => lineFeeds_type t _
    have hfields := lineFeeds_group "Fields" (by decide) info.fields
      fun f _ => lineFeeds_field f
    have hmethods := lineFeeds_group "Methods" (by decide) info.methods
      fun m _ => lineFeeds_method info m
    have hproperties := lineFeeds_group "Properties" (by decide) info.properties
      fun p _ => lineFeeds_property p
    have hevents := lineFeeds_group "Events" (by decide) info.events
      fun e _ => lineFeeds_event e
    rw [type_node, TypeDefinition.entries, List.flatMap_cons, feedsIn_append, ← hnested]
    simp (disch := decide) only [typeAround, MemberOrder.arrange, lineFeeds_append, lineFeeds_line,
      lineFeeds_nil, lineFeeds_deeper, lineFeeds_heritage, lineFeeds_customAttributes,
      feeds_typeHead, hfields, hmethods, hproperties, hevents, typeTexts, feedsIn_append,
      feedsIn_cons, feedsIn_nil, feeds_append, feeds_eq_zero]
    omega
  termination_by t => sizeOf t
  decreasing_by
    have := List.sizeOf_lt_of_mem ht
    simp only [TypeDefinition.node.sizeOf_spec]
    omega

/-! ### The texts of a module -/

/-- The texts that a listing is given and writes, each as often as it is written. -/
def imageTexts (image : ModuleImage) : List String :=
  referencesTexts image ++ assemblyTexts image ++ headerTexts image ++
    (everyType (keptTypes image)).flatMap typeTexts

theorem lineFeeds_contents (image : ModuleImage) :
    lineFeeds (contents .asDeclared image) =
      feedsIn ((everyType (keptTypes image)).flatMap typeTexts) := by
  rw [everyType, List.flatMap_map, TypeDefinition.entriesOfEach_eq_flatMap, List.flatMap_assoc,
    keptTypes, contents, MemberOrder.arrange]
  have hempty : feeds "" = 0 := rfl
  induction image.types with
  | nil => rfl
  | cons t ts ih =>
    rw [List.flatMap_cons, lineFeeds_append, ih, List.filter_cons]
    cases isEmptyModuleType t.info <;> simp [lineFeeds_type t none, hempty]

theorem lines_eq_map (depth : Nat) (steps : List Step) :
    lines steps = (linesAt depth steps).map (·.2) := by
  induction steps generalizing depth with
  | nil => rfl
  | cons s steps ih =>
    cases s with
    | line text =>
      rw [linesAt_line, List.map_cons, ← ih]
      rfl
    | indent => exact ih (depth + 1)
    | unindent => exact ih (depth - 1)

/-- The order of members does not matter, since it only permutes the lines. -/
theorem lineFeeds_all (order : MemberOrder) (image : ModuleImage) :
    lineFeeds (all order image) = feedsIn (imageTexts image) := by
  have horder : lineFeeds (all order image) = lineFeeds (all .asDeclared image) := by
    refine feedsIn_perm ?_
    rw [lines_eq_map 0, lines_eq_map 0]
    exact ((sameLines_all order .asDeclared image).perm 0).map _
  rw [horder]
  simp (disch := decide) [all, imageTexts, lineFeeds_references, lineFeeds_assembly,
    lineFeeds_moduleHeader, lineFeeds_contents, feeds_eq_zero]

/-! ### Entries -/

/-- What stands between the line feeds of a text, before the first and behind the last. -/
def entries (text : String) : List String :=
  (text.toList.splitOn '\n').map String.ofList

/-- What steps have written, one text for each line they call for. -/
def written (steps : List Step) : List String :=
  ((Output.empty "\t").run steps).lines.toList

theorem written_eq (steps : List Step) :
    written steps = (linesAt 0 steps).map fun l => Output.place "\t" l.1 l.2 := by
  rw [written, lines_run]
  rfl

theorem length_written (steps : List Step) : (written steps).length = (lines steps).length := by
  rw [written_eq, lines_eq_map 0, List.length_map, List.length_map]

theorem feeds_place (depth : Nat) (text : String) :
    feeds (Output.place "\t" depth text) = feeds text := by
  unfold Output.place
  split
  · next hempty => rw [hempty]
  · rw [feeds_append, feeds_join]
    have htabs : feedsIn (List.replicate depth "\t") = 0 := by
      refine feedsIn_eq_zero_iff.mpr fun s hs => ?_
      rw [List.eq_of_mem_replicate hs]
      decide
    rw [htabs, Nat.zero_add]

theorem feedsIn_written (steps : List Step) : feedsIn (written steps) = lineFeeds steps := by
  rw [written_eq, lineFeeds, lines_eq_map 0]
  exact feedsIn_map fun l _ => feeds_place l.1 l.2

theorem toList_render (steps : List Step) :
    (Step.render steps).toList = ((written steps).map String.toList).flatMap (· ++ ['\n']) := by
  rw [Step.render, Output.text, String.toList_join, List.flatMap_map, List.flatMap_map]
  simp [written]

theorem length_entries (steps : List Step) :
    (entries (Step.render steps)).length = (lines steps).length + lineFeeds steps + 1 := by
  rw [entries, List.length_map, length_splitOn, toList_render, ← length_written,
    ← feedsIn_written]
  congr 1
  induction written steps with
  | nil => rfl
  | cons s texts ih =>
    rw [List.map_cons, List.flatMap_cons, List.count_append, ih, List.count_append,
      List.length_cons, feedsIn_cons, feeds, List.count_singleton_self]
    omega

/-- If no line has a line feed in it, the entries are the lines and nothing behind the last. -/
theorem entries_of_lineFeeds_eq_zero {steps : List Step} (h : lineFeeds steps = 0) :
    entries (Step.render steps) = written steps ++ [""] := by
  rw [← feedsIn_written, feedsIn_eq_zero_iff] at h
  have hlines : ∀ piece ∈ (written steps).map String.toList, '\n' ∉ piece := by
    intro piece hpiece
    obtain ⟨s, hs, rfl⟩ := List.mem_map.mp hpiece
    exact List.count_eq_zero.mp (h s hs)
  rw [entries, toList_render, splitOn_flatMap hlines, List.map_append, List.map_map]
  have hread : String.ofList ∘ String.toList = id := funext fun _ => String.ofList_toList
  rw [hread, List.map_id]
  rfl

/-- **When one call writes one line.** A listing has one entry for each line it was to write, one
    behind the last line feed, and one more for each line feed in the texts it was given. So there
    is one entry for each call exactly if none of these texts has a line feed, and then the entries
    are the lines themselves. -/
theorem entries_render (order : MemberOrder) (image : ModuleImage) :
    (entries (render order image)).length =
        (lines (all order image)).length + feedsIn (imageTexts image) + 1 ∧
      ((entries (render order image)).length = (lines (all order image)).length + 1 ↔
        ∀ s ∈ imageTexts image, '\n' ∉ s.toList) ∧
      (entries (render order image) = written (all order image) ++ [""] ↔
        ∀ s ∈ imageTexts image, '\n' ∉ s.toList) := by
  have hlength := length_entries (all order image)
  rw [lineFeeds_all] at hlength
  have hclean : feedsIn (imageTexts image) = 0 ↔ ∀ s ∈ imageTexts image, '\n' ∉ s.toList := by
    simp only [feedsIn_eq_zero_iff, feeds, List.count_eq_zero]
  refine ⟨hlength, ?_, ?_⟩
  · rw [← hclean, render, hlength]
    omega
  · rw [← hclean]
    constructor
    · intro hentries
      have hcount := congrArg List.length hentries
      rw [render, hlength, List.length_append, length_written] at hcount
      simpa using hcount
    · intro hfeeds
      exact entries_of_lineFeeds_eq_zero ((lineFeeds_all order image).trans hfeeds)

/-- A module with one type, whose name has a line feed and a directive behind it. -/
def injectingImage : ModuleImage :=
  { path := "", assembly? := none, references := [],
    header := ⟨"A.dll", "", 0, 0, 0, 0, 0, []⟩,
    types := [.node ⟨"A\n.class B", "", [], none, [], [], none, [], [], [], [], [],
      Token.ofRow TableNumber.typeDef 1⟩ []] }

/-- The comment at the end of its only type ends early, and a class begins that is not there; the
    listing has more entries than lines were called for. -/
theorem entries_injecting :
    entries (Step.render (contents .asDeclared injectingImage)) =
        [".class 'A", "'.'class B'", openBlock, "\x7d // end of class A", ".class B", "", ""] ∧
      lines (contents .asDeclared injectingImage) =
        [".class 'A\n'.'class B'", openBlock, "\x7d // end of class A\n.class B", ""] ∧
      (entries (render .asDeclared injectingImage)).length ≠
        (lines (all .asDeclared injectingImage)).length + 1 := by
  refine ⟨by decide +kernel, by decide +kernel, ?_⟩
  have hlength := length_entries (all .asDeclared injectingImage)
  have htexts : feedsIn (imageTexts injectingImage) = 2 := by decide +kernel
  rw [lineFeeds_all, htexts] at hlength
  rw [render, hlength]
  omega

end Listing

end ILDump
