import ILDump.Module.Queries
import ILDump.Proofs.Module.Members
import ILDump.Proofs.Module.Recall

/-!
# Queries in any order

A loader answers a query with the names it knows, and knows more names afterwards, so an
answer might depend on all queries before it. It does not: with right names every part of a
module is loaded as it is with none, and only right names are added, also on the way to a
fault. The names known from the preparation are right for the same reason.
-/

namespace ILDump

open Loader (NoCycles)
open Recall (Right)

/-! ### Naming while loading -/

theorem Gives.named {α : Type} {I : KnownNames → Prop} {naming : Recall α}
    {x : Except SignatureFault α} (h : Gives I naming x) :
    Gives I (Recall.named naming) (Loader.named x) := by
  intro known hknown
  obtain ⟨known', hknown', hgives⟩ := h known hknown
  refine ⟨known', hknown', ?_⟩
  rw [Recall.named, hgives]
  cases x <;> rfl

namespace Recall

variable {t : Tables}

theorem gives_attributeOf (r : AttributeRow) :
    Gives (Right t) (attributeOf t r) (Attachments.attributeOf t r) := by
  unfold attributeOf Attachments.attributeOf
  cases r.parent? with
  | none => exact .pure _
  | some parent =>
    cases r.constructor? with
    | none => exact .pure _
    | some constructor => exact (gives_tokenText _).bind fun _ => .pure _

theorem gives_accessorsOfRow (r : SemanticsRow) :
    Gives (Right t) (accessorsOfRow t r) (Attachments.accessorsOfRow t r) := by
  unfold accessorsOfRow Attachments.accessorsOfRow
  cases r.association? with
  | none => exact .pure _
  | some association =>
    refine .ite (.pure _) (.mapM (fun d => ?_) _)
    exact (gives_methodDefText _ _).bind fun _ => .pure _

theorem gives_attachments : Gives (Right t) (attachments t) (Attachments.of t) :=
  (Gives.mapM gives_attributeOf _).bind fun _ =>
    (Gives.mapM gives_accessorsOfRow _).bind fun _ => .pure _

theorem gives_around? (n : Nat) : Gives (Right t) (around? t n) (t.around? n) :=
  .ite (.pure none) ((gives_typeDefName _).map some)

theorem gives_operandText (start : Nat) (operand : Operand) :
    Gives (Right t) (operandText t start operand) (Loader.operandText t start operand) := by
  cases operand with
  | token token => exact (gives_tokenText token).bind fun _ => .pure _
  | _ => exact .pure _

theorem gives_instruction (start : Nat) (i : CodeInstruction) :
    Gives (Right t) (instruction t start i) (Loader.instruction t start i) :=
  (gives_operandText _ _).bind fun _ => .pure _

theorem gives_exceptionClause (c : CodeClause) :
    Gives (Right t) (exceptionClause t c) (Loader.exceptionClause t c) := by
  have hhandler : Gives (Right t) (handler t c) (Loader.handler t c) :=
    .ite ((gives_typeName _).bind fun _ => .pure _) <| .ite (.pure _) <|
      .ite (.pure _) (.pure _)
  exact hhandler.bind fun _ => .pure _

theorem gives_locals? (token : Token) :
    Gives (Right t) (locals? t token) (Loader.locals? t token) := by
  refine .ite ?_ (.pure _)
  cases Tables.row? t.standAloneSigs token.row with
  | none => exact .pure _
  | some blob =>
    have hread := AskingReader.follows_locals (gives_typeName (t := t))
    exact (hread.decode blob).bind fun _ => .pure _

theorem gives_bodyOf (c : Code) : Gives (Right t) (bodyOf t c) (Loader.bodyOf t c) :=
  (gives_locals? _).bind fun _ =>
    (Gives.mapM gives_exceptionClause _).bind fun _ =>
    (Gives.mapM (gives_instruction _) _).bind fun _ => .pure _

end Recall

/-! ### Loading -/

namespace Loading

theorem gives_prepare {source : ModuleSource} :
    Gives (Right source.tables) (prepare source) (Loader.of source) :=
  (Recall.gives_attachments).named.bind fun _ => .pure _

variable {l : Loader}

theorem gives_body (address : Nat) : Gives (Right l.tables) (body l address) (l.body address) :=
  (Recall.gives_lift _).bind fun code => (Recall.gives_bodyOf code).named

theorem gives_field (n : Nat) (r : FieldRow) :
    Gives (Right l.tables) (field l n r) (l.field n r) :=
  (Recall.gives_fieldType _).named.bind fun _ => .pure _

theorem gives_property (n : Nat) (r : PropertyRow) :
    Gives (Right l.tables) (property l n r) (l.property n r) := by
  have hread := AskingReader.follows_property (Recall.gives_typeName (t := l.tables))
  exact (hread.decode r.signature).named.bind fun _ => .pure _

theorem gives_event (n : Nat) (r : EventRow) :
    Gives (Right l.tables) (event l n r) (l.event n r) := by
  unfold event Loader.event
  cases r.type? with
  | none => exact (Gives.pure _).bind fun _ => .pure _
  | some type => exact (Recall.gives_typeName _).named.bind fun _ => .pure _

theorem gives_method (n : Nat) (r : MethodRow) :
    Gives (Right l.tables) (method l n r) (l.method n r) := by
  refine (Recall.gives_methodSignature _).named.bind fun signature => ?_
  refine .ite ?_ ?_
  · exact ((gives_body _).map some).bind fun _ => .pure _
  · exact (Gives.pure none).bind fun _ => .pure _

theorem gives_run {α β : Type} {I : KnownNames → Prop} {load : Nat → α → Loading β}
    {load' : Nat → α → Except ModuleFault β} (h : ∀ n a, Gives I (load n a) (load' n a))
    (rows : List α) (numbers : List Nat) :
    Gives I (run load rows numbers) (Loader.loadRun load' rows numbers) :=
  Gives.mapM (fun p : Nat × α => h p.1 p.2) _

theorem gives_typeParts : Gives (Right l.tables) (typeParts l) l.typeParts := by
  refine (Gives.mapM (fun r => ?interface) _).bind fun _ => ?_
  case interface =>
    cases r.interface? with
    | none => exact .pure _
    | some token => exact (Recall.gives_typeName token).named.bind fun _ => .pure _
  refine (Gives.mapM (fun r => ?property) _).bind fun _ => ?_
  case property => exact (gives_run gives_property _ _).bind fun _ => .pure _
  refine (Gives.mapM (fun r => ?event) _).bind fun _ => .pure _
  exact (gives_run gives_event _ _).bind fun _ => .pure _

theorem gives_typeInfo (parts : Loader.TypeParts) (n : Nat) (r : TypeDefRow) :
    Gives (Right l.tables) (typeInfo l parts n r) (l.typeInfo parts n r) := by
  have hrest : ∀ extends?, Gives (Right l.tables)
      (do
        let enclosing? ← Recall.named (Recall.around? l.tables n)
        let fields ← run (field l) l.tables.fields r.fields
        let methods ← run (method l) l.tables.methods r.methods
        return l.typeWith parts n r extends? enclosing? fields methods)
      (do
        let enclosing? ← Loader.named (l.tables.around? n)
        let fields ← Loader.loadRun l.field l.tables.fields r.fields
        let methods ← Loader.loadRun l.method l.tables.methods r.methods
        return l.typeWith parts n r extends? enclosing? fields methods) := by
    intro extends?
    refine (Recall.gives_around? n).named.bind fun enclosing? => ?_
    exact (gives_run gives_field _ _).bind fun _ =>
      (gives_run gives_method _ _).bind fun _ => .pure _
  unfold typeInfo Loader.typeInfo
  cases r.extends? with
  | none => exact (Gives.pure none).bind hrest
  | some base => exact ((Recall.gives_typeName base).named.map some).bind hrest

theorem gives_types : Gives (Right l.tables) (types l) l.types :=
  gives_typeParts.bind fun parts =>
    (Gives.mapM (fun p : Nat × TypeDefRow => gives_typeInfo parts p.1 p.2) _).bind
      fun _ => .pure _

end Loading

/-! ### Queries -/

/-- The answer to a query when every name is made anew. -/
def Query.anew (l : Loader) (path : String) : Query → Except ModuleFault Reply
  | tokenText token => (Loader.named (l.tables.tokenText token)).map .text
  | typeName token => (Loader.named (l.tables.typeName token)).map .text
  | typeDefName row => (Loader.named (l.tables.typeDefName row)).map .text
  | typeRefName row => (Loader.named (l.tables.typeRefName row)).map .text
  | methodDefText row arguments =>
    (Loader.named (l.tables.methodDefText row arguments)).map .text
  | fieldText row => (Loader.named (l.tables.fieldText row)).map .text
  | memberRefText row arguments =>
    (Loader.named (l.tables.memberRefText row arguments)).map .text
  | methodSpecText row => (Loader.named (l.tables.methodSpecText row)).map .text
  | genericParameters token => .ok (.texts (l.tables.genericParameters token))
  | attributes token => .ok (.attributes (l.attachments.attributesOf token))
  | accessors token => .ok (.accessors (l.attachments.accessorsOf token))
  | references => .ok (.references l.references)
  | assembly => .ok (.assembly l.assembly?)
  | header => .ok (.header (l.header path))
  | types => l.types.map .types

section Queries

variable {l : Loader} {known : KnownNames}

theorem Query.gives_answer (path : String) (q : Query) :
    Gives (Right l.tables) (q.answer l path) (q.anew l path) := by
  cases q with
  | tokenText token => exact (Recall.gives_tokenText token).named.map _
  | typeName token => exact (Recall.gives_typeName token).named.map _
  | typeDefName row => exact (Recall.gives_typeDefName row).named.map _
  | typeRefName row => exact (Recall.gives_lift (l.tables.typeRefName row)).named.map _
  | methodDefText row arguments =>
    exact (Recall.gives_methodDefText row arguments).named.map _
  | fieldText row => exact (Recall.gives_fieldText row).named.map _
  | memberRefText row arguments =>
    exact (Recall.gives_memberRefText row arguments).named.map _
  | methodSpecText row => exact (Recall.gives_methodSpecText row).named.map _
  | types => exact (Loading.gives_types).map _
  | _ => exact .pure _

/-- One query: the answer is the one made anew, and right names stay right. -/
theorem Query.respond_eq (path : String) (q : Query) (hknown : Right l.tables known) :
    (q.respond l path known).1 = q.anew l path ∧ Right l.tables (q.respond l path known).2 := by
  obtain ⟨known', hknown', hgives⟩ := q.gives_answer path known hknown
  rw [Query.respond, hgives]
  cases q.anew l path with
  | ok reply => exact ⟨rfl, hknown'⟩
  | error e => exact ⟨rfl, hknown'⟩

/-- By induction on the queries: each of them leaves right names to the next. -/
theorem answers_eq (path : String) (qs : List Query) (hknown : Right l.tables known) :
    answers l path qs known = qs.map (Query.anew l path) := by
  induction qs generalizing known with
  | nil => rfl
  | cons q qs ih =>
    obtain ⟨hanswer, hright⟩ := q.respond_eq path hknown
    rw [List.map_cons, ← hanswer, ← ih hright]
    rfl

end Queries

theorem right_of_prepare {source : ModuleSource} {l : Loader} {known : KnownNames}
    (h : Loading.prepare source [] = .ok l known) :
    Loader.of source = .ok l ∧ Right source.tables known := by
  obtain ⟨known', hknown', hgives⟩ :=
    Loading.gives_prepare [] (Recall.right_nil source.tables)
  rw [h] at hgives
  cases hof : Loader.of source with
  | error e =>
    rw [hof] at hgives
    cases hgives
  | ok l' =>
    rw [hof] at hgives
    cases hgives
    exact ⟨rfl, hknown'⟩

theorem source_of_eq_ok {source : ModuleSource} {l : Loader} (h : Loader.of source = .ok l) :
    l.source = source := by
  obtain ⟨attachments, -, h⟩ := exists_of_bind_eq_ok h
  cases h
  rfl

/-- What a loader answers that was prepared for a source and then asked queries. -/
structure OrderFree (source : ModuleSource) (path : String) (l : Loader) (known : KnownNames)
    (qs : List Query) : Prop where
  /-- Each query is answered as if it were the first one. -/
  first : answers l path qs known = qs.map fun q => (q.respond l path known).1
  /-- The loader is the one that remembers nothing, and it gives the same answers. -/
  anew : Loader.of source = .ok l ∧ answers l path qs known = qs.map (Query.anew l path)
  /-- A defined type has the name of the outermost type around it and all names below. -/
  chain : ∀ n, ∃ top names, Tables.Chain source.tables n top names ∧
    ((Query.typeDefName n).respond l path known).1 =
      .ok (.text (source.tables.chainText top names))
  absent : ∀ n, Tables.row? source.tables.typeDefs n = none →
    ((Query.typeDefName n).respond l path known).1 = .ok (.text (Tables.placeholder "TypeDef" n))

/-- **The order of queries does not matter.** -/
theorem answers_in_any_order {source : ModuleSource} {l : Loader} {known : KnownNames}
    (hacyclic : NoCycles source.tables) (hready : Loading.prepare source [] = .ok l known)
    (path : String) (qs : List Query) : OrderFree source path l known qs := by
  obtain ⟨hof, hknown⟩ := right_of_prepare hready
  obtain rfl := source_of_eq_ok hof
  have heach : ∀ q : Query, (q.respond l path known).1 = q.anew l path :=
    fun q => (q.respond_eq path hknown).1
  have hanew := answers_eq path qs hknown
  have hnamed : ∀ {n : Nat} {name : String}, l.source.tables.typeDefName n = .ok name →
      ((Query.typeDefName n).respond l path known).1 = .ok (.text name) := by
    intro n name hname
    rw [heach, Query.anew, show l.tables = l.source.tables from rfl, hname]
    rfl
  refine ⟨?first, ⟨hof, hanew⟩, ?chain, ?absent⟩
  case first =>
    rw [hanew]
    exact List.map_congr_left fun q _ => (heach q).symm
  case chain =>
    intro n
    obtain ⟨top, names, hchain⟩ := Tables.exists_chain hacyclic n
    exact ⟨top, names, hchain, hnamed (Tables.typeDefName_of_chain hchain)⟩
  case absent =>
    intro n hrow
    have hname : l.source.tables.typeDefName n = .ok (l.source.tables.outermostName n) :=
      Tables.typeDefName_top fun r hr => absurd (hrow.symm.trans hr) (by simp)
    rw [hnamed hname, Tables.outermostName, hrow]

/-- A type in another one, whose constructor makes an attribute of the assembly. So the names
    of both types are known before the first query. -/
def sampleSource : ModuleSource where
  executable := ⟨[], 0, 0, 0, 0, 0, 0, 0, [], 0⟩
  header := ⟨0, 0, 0, Token.ofRow TableNumber.method 1⟩
  tables := {
    modules := [], typeRefs := [], params := [], interfaces := [], memberRefs := []
    constants := [], standAloneSigs := [], eventMaps := [], events := [], fields := []
    propertyMaps := [], properties := [], semantics := [], moduleRefs := [], typeSpecs := []
    assemblies := [], assemblyRefs := [], genericParams := [], methodSpecs := []
    userStrings := []
    typeDefs := [⟨0, "Outer", "N", none, [], []⟩, ⟨0, "Inner", "", none, [], [1]⟩]
    methods := [⟨0, 0, 0, ".ctor", [0x20, 0x00, 0x01], []⟩]
    nestedClasses := [⟨2, 1⟩]
    attributes := [⟨some (Token.ofRow TableNumber.assembly 1),
      some (Token.ofRow TableNumber.method 1), []⟩] }

theorem answers_in_any_order_sample : ∃ l known,
    NoCycles sampleSource.tables ∧ Loading.prepare sampleSource [] = .ok l known ∧
    known = [(2, "N.Outer/Inner"), (1, "N.Outer")] ∧
    OrderFree sampleSource "sample.dll" l known
      [.methodSpecText 7, .tokenText (Token.ofRow TableNumber.method 1), .types] := by
  have hacyclic : NoCycles sampleSource.tables := by
    refine Loader.noCycles_of_lt fun n outer hinside => ?_
    obtain ⟨⟨before, after, hsplit, -⟩, -⟩ := Loader.parent?_eq_some_iff.mp hinside
    have hmem : (⟨n, outer⟩ : NestedClassRow) ∈ sampleSource.tables.nestedClasses := by
      simp [hsplit]
    simp [sampleSource] at hmem
    omega
  have hknown : (match Loading.prepare sampleSource [] with
      | .ok _ known => known
      | .error _ _ => []) = [(2, "N.Outer/Inner"), (1, "N.Outer")] := by
    decide +kernel
  cases hready : Loading.prepare sampleSource [] with
  | ok l known =>
    rw [hready] at hknown
    exact ⟨l, known, hacyclic, rfl, hknown, answers_in_any_order hacyclic hready _ _⟩
  | error e known =>
    rw [hready] at hknown
    cases hknown

end ILDump
