import ILDump.Module.Loader
import ILDump.Proofs.Module.Attached
import Mathlib.Data.List.Perm.Basic

/-!
# The order of association rows

A module comes out the same whatever the order of the rows that attach accessors and generic
parameters to others. No name is made from these rows, so each row attaches the same texts
wherever it stands, or fails to; and what is attached to one owner is sorted in the only way
there is.
-/

namespace ILDump

/-! ### Names -/

/-- Tables with other rows for accessors and generic parameters. -/
def Tables.withRows (t : Tables) (rows : List SemanticsRow) (params : List GenericParamRow) :
    Tables :=
  { t with semantics := rows, genericParams := params }

namespace Tables

variable (t : Tables) (rows : List SemanticsRow) (params : List GenericParamRow)

theorem typeDefNameWithin_withRows (depth number : Nat) :
    (t.withRows rows params).typeDefNameWithin depth number =
      t.typeDefNameWithin depth number := by
  have hrow : row? (t.withRows rows params).typeDefs number = row? t.typeDefs number := rfl
  have houter : (t.withRows rows params).outer? number = t.outer? number := rfl
  induction depth generalizing number with
  | zero =>
    unfold typeDefNameWithin
    rw [hrow, houter]
  | succ depth ih =>
    unfold typeDefNameWithin
    rw [hrow, houter]
    cases row? t.typeDefs number with
    | none => rfl
    | some r =>
      cases t.outer? number with
      | none => rfl
      | some outer => simp only [ih outer rfl rfl]

theorem typeDefName_withRows (number : Nat) :
    (t.withRows rows params).typeDefName number = t.typeDefName number :=
  typeDefNameWithin_withRows t rows params _ number

theorem typeRefNameWithin_withRows (depth number : Nat) :
    (t.withRows rows params).typeRefNameWithin depth number =
      t.typeRefNameWithin depth number := by
  induction depth generalizing number with
  | zero =>
    unfold typeRefNameWithin
    rfl
  | succ depth ih =>
    unfold typeRefNameWithin
    simp only [ih]
    rfl

theorem typeRefName_withRows (number : Nat) :
    (t.withRows rows params).typeRefName number = t.typeRefName number :=
  typeRefNameWithin_withRows t rows params _ number

theorem typeNameWithin_withRows (depth : Nat) :
    (t.withRows rows params).typeNameWithin depth = t.typeNameWithin depth := by
  induction depth with
  | zero =>
    funext token
    simp only [typeNameWithin, typeDefName_withRows, typeRefName_withRows]
    rfl
  | succ depth ih =>
    funext token
    simp only [typeNameWithin, typeDefName_withRows, typeRefName_withRows, ih]
    rfl

theorem around?_withRows (number : Nat) :
    (t.withRows rows params).around? number = t.around? number := by
  simp only [around?, typeDefName_withRows]
  rfl

theorem typeName_withRows : (t.withRows rows params).typeName = t.typeName :=
  typeNameWithin_withRows t rows params _

theorem methodSignature_withRows :
    (t.withRows rows params).methodSignature = t.methodSignature := by
  funext blob
  rw [methodSignature, methodSignature, typeName_withRows]

theorem fieldType_withRows : (t.withRows rows params).fieldType = t.fieldType := by
  funext blob
  rw [fieldType, fieldType, typeName_withRows]

theorem methodDefText_withRows : (t.withRows rows params).methodDefText = t.methodDefText := by
  funext number arguments
  simp only [methodDefText, methodSignature_withRows, typeDefName_withRows]
  rfl

theorem fieldText_withRows : (t.withRows rows params).fieldText = t.fieldText := by
  funext number
  simp only [fieldText, fieldType_withRows, typeDefName_withRows]
  rfl

theorem memberRefOwner_withRows :
    (t.withRows rows params).memberRefOwner = t.memberRefOwner := by
  funext parent?
  cases parent? with
  | none => rfl
  | some parent =>
    simp only [memberRefOwner, typeName_withRows, typeDefName_withRows]
    rfl

theorem memberRefText_withRows : (t.withRows rows params).memberRefText = t.memberRefText := by
  funext number arguments
  simp only [memberRefText, memberRefOwner_withRows, methodSignature_withRows, fieldType_withRows]
  rfl

theorem methodSpecText_withRows :
    (t.withRows rows params).methodSpecText = t.methodSpecText := by
  funext number
  simp only [methodSpecText, methodDefText_withRows, memberRefText_withRows, typeName_withRows]
  rfl

theorem tokenText_withRows : (t.withRows rows params).tokenText = t.tokenText := by
  funext token
  simp only [tokenText, typeName_withRows, methodDefText_withRows, fieldText_withRows,
    memberRefText_withRows, methodSpecText_withRows]
  rfl

end Tables

/-! ### Loading -/

namespace Loader

/-- The loader of tables with other rows, to which other accessors are attached. -/
def withRows (l : Loader) (rows : List SemanticsRow) (params : List GenericParamRow)
    (accessors : List (Token × Nat × Accessor)) : Loader where
  source := { l.source with tables := l.tables.withRows rows params }
  attachments := { l.attachments with accessors }
  code := l.code

variable {l : Loader} {rows : List SemanticsRow} {params : List GenericParamRow}
  {accessors : List (Token × Nat × Accessor)}

theorem tables_withRows :
    (l.withRows rows params accessors).tables = l.tables.withRows rows params := rfl

theorem bodyOf_withRows (t : Tables) : bodyOf (t.withRows rows params) = bodyOf t := by
  have hoperand (start : Nat) (o : Operand) :
      operandText (t.withRows rows params) start o = operandText t start o := by
    cases o with
    | token token => simp only [operandText, Tables.tokenText_withRows]
    | _ => rfl
  have hinstruction (start : Nat) :
      instruction (t.withRows rows params) start = instruction t start := by
    funext i
    simp only [instruction, hoperand]
  have hclause : exceptionClause (t.withRows rows params) = exceptionClause t := by
    funext c
    simp only [exceptionClause, handler, Tables.typeName_withRows]
  have hlocals : locals? (t.withRows rows params) = locals? t := by
    funext token
    simp only [locals?, Tables.typeName_withRows]
    rfl
  funext c
  simp only [bodyOf, hlocals, hclause, hinstruction]

theorem body_withRows : (l.withRows rows params accessors).body = l.body := by
  funext address
  simp only [body, tables_withRows, bodyOf_withRows]
  rfl

theorem field_withRows : (l.withRows rows params accessors).field = l.field := by
  funext number r
  simp only [field, tables_withRows, Tables.fieldType_withRows]
  rfl

/-- By induction on the depth. -/
theorem forest_withRows (t : Tables) : forest (t.withRows rows params) = forest t := by
  funext infos depth
  induction depth with
  | zero =>
    funext outer?
    rfl
  | succ depth ih =>
    funext outer?
    simp only [forest, ih]
    rfl

section Accessors

variable (haccessors : ∀ token,
  (l.withRows rows params accessors).attachments.accessorsOf token =
    l.attachments.accessorsOf token)
include haccessors

theorem property_withRows : (l.withRows rows params accessors).property = l.property := by
  funext number r
  simp only [property, propertyWith, tables_withRows, Tables.typeName_withRows, haccessors]
  rfl

theorem event_withRows : (l.withRows rows params accessors).event = l.event := by
  funext number r
  simp only [event, eventWith, tables_withRows, Tables.typeName_withRows, haccessors]
  rfl

theorem typeParts_withRows : (l.withRows rows params accessors).typeParts = l.typeParts := by
  simp only [typeParts, tables_withRows, Tables.typeName_withRows,
    property_withRows haccessors, event_withRows haccessors]
  rfl

end Accessors

section Parameters

variable (hparams : ∀ owner, (l.tables.withRows rows params).genericParameters owner =
  l.tables.genericParameters owner)
include hparams

theorem method_withRows : (l.withRows rows params accessors).method = l.method := by
  funext number r
  simp only [method, methodWith, tables_withRows, Tables.methodSignature_withRows,
    body_withRows, hparams]
  rfl

theorem typeInfo_withRows : (l.withRows rows params accessors).typeInfo = l.typeInfo := by
  funext parts number r
  simp only [typeInfo, typeWith, tables_withRows, Tables.typeName_withRows,
    Tables.around?_withRows, field_withRows, method_withRows hparams, hparams]
  rfl

/-- Where the same is attached to every row, the module is the same. -/
theorem image_withRows (haccessors : ∀ token,
    (l.withRows rows params accessors).attachments.accessorsOf token =
      l.attachments.accessorsOf token) :
    (l.withRows rows params accessors).image = l.image := by
  funext path
  simp only [image, types, tables_withRows, forest_withRows, typeParts_withRows haccessors,
    typeInfo_withRows hparams]
  rfl

end Parameters

end Loader

/-! ### Rows in another order -/

/-- For a list in another order the same is done, and it comes out in that order. -/
theorem exists_mapM_of_perm {ε α β : Type} {f : α → Except ε β} {xs xs' : List α} {ys : List β}
    (hperm : xs.Perm xs') (h : xs.mapM f = .ok ys) :
    ∃ ys', xs'.mapM f = .ok ys' ∧ ys.Perm ys' := by
  obtain ⟨ys', hmap, hys⟩ := List.perm_comp_forall₂ hperm.symm (forall₂_of_mapM h)
  exact ⟨ys', mapM_of_forall₂ hmap, hys.symm⟩

section Permuted

variable {t : Tables} {rows : List SemanticsRow} {params : List GenericParamRow}

/-- Rows in another order attach the same accessors in another order. -/
theorem Attachments.exists_of_perm (params : List GenericParamRow) {a : Attachments}
    (hrows : t.semantics.Perm rows) (h : Attachments.of t = .ok a) :
    ∃ accessors, Attachments.of (t.withRows rows params) = .ok { a with accessors } ∧
      a.accessors.Perm accessors := by
  obtain ⟨attributes, hattributes, h⟩ := exists_of_bind_eq_ok h
  obtain ⟨found, hfound, h⟩ := exists_of_bind_eq_ok h
  cases h
  obtain ⟨found', hfound', hperm⟩ := exists_mapM_of_perm hrows hfound
  have hattribute : attributeOf (t.withRows rows params) = attributeOf t := by
    funext r
    rw [attributeOf, attributeOf, Tables.tokenText_withRows]
  have haccessor : accessorsOfRow (t.withRows rows params) = accessorsOfRow t := by
    funext r
    rw [accessorsOfRow, accessorsOfRow, Tables.methodDefText_withRows]
  have hattributes' : (t.withRows rows params).attributes.mapM (attributeOf t) = .ok attributes :=
    hattributes
  have hrows' : (t.withRows rows params).semantics.mapM (accessorsOfRow t) = .ok found' := hfound'
  refine ⟨found'.flatten, ?_, hperm.flatten⟩
  rw [Attachments.of, hattribute, haccessor, hattributes', hrows']
  rfl

/-- The sorted list is the only one, so accessors in another order are listed alike. -/
theorem Attachments.accessorsOf_eq_of_perm {t' : Tables} {a a' : Attachments}
    (h : Attachments.of t = .ok a) (h' : Attachments.of t' = .ok a')
    (hperm : a.accessors.Perm a'.accessors) (token : Token) :
    a'.accessorsOf token = a.accessorsOf token := by
  refine (accessorsOf_listed h token).only _ ?_ (accessorsOf_listed h' token).sorted
  have howned : (a'.owned token).Perm (a.owned token) := (hperm.symm.filter _).map _
  exact ((accessorsOf_perm_owned a' token).trans (howned.map Prod.snd)).trans
    (accessorsOf_perm_owned a token).symm

theorem Tables.genericParameters_withRows (rows : List SemanticsRow)
    (hparams : t.genericParams.Perm params) (owner : Token) :
    (t.withRows rows params).genericParameters owner = t.genericParameters owner := by
  obtain ⟨listed, hlisted, hperm, -, honly⟩ := t.genericParameters_listed owner
  obtain ⟨listed', hlisted', hperm', hsorted, -⟩ :=
    (t.withRows rows params).genericParameters_listed owner
  have howned : ((t.withRows rows params).ownedParameters owner).Perm (t.ownedParameters owner) :=
    hparams.symm.filter _
  have hsame : listed' = listed :=
    honly listed' ((hperm'.trans howned).trans hperm.symm) hsorted
  rw [hlisted, hlisted', hsame]

end Permuted

section Source

variable {decoders : Decoders} {source : ModuleSource} {rows : List SemanticsRow}
  {params : List GenericParamRow}

/-- The same file with other association rows. -/
def ModuleSource.withRows (source : ModuleSource) (rows : List SemanticsRow)
    (params : List GenericParamRow) : ModuleSource :=
  { source with tables := source.tables.withRows rows params }

theorem Loader.exists_attachments_of {l : Loader} (h : Loader.ofWith decoders source = .ok l) :
    ∃ a, Attachments.of source.tables = .ok a ∧
      l = { source, attachments := a, code := decoders.code source.executable } := by
  obtain ⟨a, ha, h⟩ := exists_of_bind_eq_ok h
  cases hof : Attachments.of source.tables with
  | error e =>
    rw [hof] at ha
    cases ha
  | ok a' =>
    rw [hof] at ha
    cases ha
    cases h
    exact ⟨_, rfl, rfl⟩

/-- With permuted rows loading is prepared as well, and everything comes out the same. -/
theorem Loader.exists_of_perm {l : Loader} (hrows : source.tables.semantics.Perm rows)
    (hparams : source.tables.genericParams.Perm params)
    (h : Loader.ofWith decoders source = .ok l) :
    ∃ l', Loader.ofWith decoders (source.withRows rows params) = .ok l' ∧
      (∀ token, l'.attachments.accessorsOf token = l.attachments.accessorsOf token) ∧
      (∀ owner, l'.tables.genericParameters owner = l.tables.genericParameters owner) ∧
      l'.image = l.image := by
  obtain ⟨a, ha, rfl⟩ := exists_attachments_of h
  obtain ⟨accessors, ha', hperm⟩ := Attachments.exists_of_perm params hrows ha
  have haccessors := Attachments.accessorsOf_eq_of_perm ha ha' hperm
  have hgeneric := Tables.genericParameters_withRows rows hparams
  let l : Loader := { source, attachments := a, code := decoders.code source.executable }
  have htables : (source.withRows rows params).tables = source.tables.withRows rows params := rfl
  refine ⟨l.withRows rows params accessors, ?_, haccessors, hgeneric,
    image_withRows hgeneric haccessors⟩
  rw [ofWith, htables, ha']
  rfl

/-- What there is of a file that does not depend on the order of its association rows. -/
structure SameModule (decoders : Decoders) (path : String) (source source' : ModuleSource) :
    Prop where
  images : ∀ image, ModuleImage.ofSourceWith decoders path source = .ok image ↔
    ModuleImage.ofSourceWith decoders path source' = .ok image
  attached : ∀ l, Loader.ofWith decoders source = .ok l →
    ∃ l', Loader.ofWith decoders source' = .ok l' ∧
      (∀ token, l'.attachments.accessorsOf token = l.attachments.accessorsOf token) ∧
      ∀ owner, l'.tables.genericParameters owner = l.tables.genericParameters owner
  accessors : ∀ l, Loader.ofWith decoders source = .ok l →
    ∀ token, AccessorsOf source.tables token (l.attachments.accessorsOf token)
  parameters : ∀ owner, source.tables.ParametersOf owner (source.tables.genericParameters owner)

theorem ModuleImage.ofSourceWith_of_perm {path : String} {image : ModuleImage}
    (hrows : source.tables.semantics.Perm rows) (hparams : source.tables.genericParams.Perm params)
    (h : ModuleImage.ofSourceWith decoders path source = .ok image) :
    ModuleImage.ofSourceWith decoders path (source.withRows rows params) = .ok image := by
  obtain ⟨l, hl, himage⟩ := exists_of_bind_eq_ok h
  obtain ⟨l', hl', -, -, hsame⟩ := Loader.exists_of_perm hrows hparams hl
  rw [ofSourceWith, hl', ← himage, ← hsame]
  rfl

/-- **The order of association rows does not matter.** -/
theorem sameModule_of_perm (decoders : Decoders) (path : String)
    (hrows : source.tables.semantics.Perm rows)
    (hparams : source.tables.genericParams.Perm params) :
    SameModule decoders path source (source.withRows rows params) where
  images image := by
    constructor
    · exact ModuleImage.ofSourceWith_of_perm hrows hparams
    · intro h
      -- with its own rows again, the second file is the first one
      have hback : (source.withRows rows params).withRows source.tables.semantics
        source.tables.genericParams = source := rfl
      rw [← hback]
      exact ModuleImage.ofSourceWith_of_perm hrows.symm hparams.symm h
  attached l hl := by
    obtain ⟨l', hl', haccessors, hgeneric, -⟩ := Loader.exists_of_perm hrows hparams hl
    exact ⟨l', hl', haccessors, hgeneric⟩
  accessors l hl token := by
    obtain ⟨a, ha, rfl⟩ := Loader.exists_attachments_of hl
    exact Attachments.accessorsOf_listed ha token
  parameters owner := source.tables.genericParameters_listed owner

/-- A type with two generic parameters and a property with three accessors, two of them from
    one row. -/
def twoRowSource : ModuleSource where
  executable := ⟨[], 0, 0, 0, 0, 0, 0, 0, [], 0⟩
  header := ⟨0, 0, 0, Token.ofRow TableNumber.method 1⟩
  tables := {
    modules := [], typeRefs := [], params := [], interfaces := [], memberRefs := []
    constants := [], standAloneSigs := [], eventMaps := [], events := [], fields := []
    moduleRefs := [], typeSpecs := [], assemblies := [], assemblyRefs := [], methodSpecs := []
    userStrings := [], nestedClasses := [], attributes := []
    typeDefs := [⟨0, "Box", "N", none, [], [1, 2]⟩]
    methods := [⟨0, 0, 0, "put", [0x20, 0x00, 0x01], []⟩, ⟨0, 0, 0, "get", [0x20, 0x00, 0x08], []⟩]
    propertyMaps := [⟨1, [1]⟩]
    properties := [⟨0, "Item", [0x28, 0x00, 0x08]⟩]
    semantics := [⟨5, 1, some (Token.ofRow TableNumber.property 1)⟩,
      ⟨2, 2, some (Token.ofRow TableNumber.property 1)⟩]
    genericParams := [⟨1, some (Token.ofRow TableNumber.typeDef 1), "U"⟩,
      ⟨0, some (Token.ofRow TableNumber.typeDef 1), "T"⟩] }

theorem sameModule_of_perm_sample :
    (∃ image, ModuleImage.ofSourceWith .standard "box.dll" twoRowSource = .ok image) ∧
      twoRowSource.tables.semantics ≠ twoRowSource.tables.semantics.reverse ∧
      SameModule .standard "box.dll" twoRowSource
        (twoRowSource.withRows twoRowSource.tables.semantics.reverse
          twoRowSource.tables.genericParams.reverse) :=
  ⟨⟨_, rfl⟩, by decide, sameModule_of_perm .standard "box.dll" (List.reverse_perm _).symm
    (List.reverse_perm _).symm⟩

end Source

end ILDump
