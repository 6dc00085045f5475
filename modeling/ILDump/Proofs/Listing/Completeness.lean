import ILDump.Proofs.Listing.Depths
import ILDump.Proofs.Listing.Rearrangement
import ILDump.Proofs.Module.Forest
import Mathlib.Data.List.Flatten

/-!
# Which types are written

Each type stands in a listing between a line that begins with `.class` and a line that ends
the class. `outline` gives these lines for one type and the types in it, and nothing else of
a listing reads like them, apart from accessors whose directives imitate them. So a listing
has the lines of exactly those types that are in the top-level types it keeps. A top-level
`<Module>` without fields and methods is not kept, and with it goes whatever else is in it.
-/

namespace ILDump.Listing

/-! ### Lines that begin and end classes -/

/-- The lines among some steps, without their depths. -/
def lines (steps : List Step) : List String :=
  steps.filterMap fun
    | .line text => some text
    | _ => none

def classHead : String := ".class "

def classEnd : String := closeBlock ++ " // end of class "

def startsWith (start s : String) : Bool :=
  start.toList.isPrefixOf s.toList

def isClassLine (s : String) : Bool :=
  startsWith classHead s || startsWith classEnd s

/-- The lines that begin and end classes. -/
def classLines (steps : List Step) : List String :=
  (lines steps).filter isClassLine

@[simp] theorem classLines_nil : classLines [] = [] := rfl

@[simp] theorem classLines_append (xs ys : List Step) :
    classLines (xs ++ ys) = classLines xs ++ classLines ys := by
  simp only [classLines, lines, List.filterMap_append, List.filter_append]

@[simp] theorem classLines_line (s : String) (steps : List Step) :
    classLines (.line s :: steps) =
      if isClassLine s then s :: classLines steps else classLines steps := by
  simp only [classLines, lines, List.filterMap_cons, List.filter_cons]

@[simp] theorem classLines_deeper (steps : List Step) :
    classLines (deeper steps) = classLines steps := by
  simp [deeper, classLines, lines]

@[simp] theorem classLines_ite (p : Prop) [Decidable p] (xs ys : List Step) :
    classLines (if p then xs else ys) = if p then classLines xs else classLines ys :=
  apply_ite classLines p xs ys

theorem classLines_flatMap {α : Type} (xs : List α) (f : α → List Step) :
    classLines (xs.flatMap f) = xs.flatMap fun x => classLines (f x) := by
  induction xs with
  | nil => rfl
  | cons x xs ih => rw [List.flatMap_cons, List.flatMap_cons, classLines_append, ih]

theorem classLines_eq_nil {α : Type} {xs : List α} {f : α → List Step}
    (h : ∀ x ∈ xs, classLines (f x) = []) : classLines (xs.flatMap f) = [] := by
  rw [classLines_flatMap, List.flatMap_eq_nil_iff]
  exact h

theorem classLines_map_line {α : Type} {xs : List α} {f : α → String}
    (h : ∀ x ∈ xs, isClassLine (f x) = false) : classLines (xs.map fun x => .line (f x)) = [] := by
  induction xs with
  | nil => rfl
  | cons x xs ih =>
    have htail := ih fun x hx => h x (by simp [hx])
    rw [List.map_cons, classLines_line, h x (by simp), htail]
    rfl

/-! ### Lines of other kinds -/

/-- Whether no text with this start can begin or end a class. -/
def isOther (start : String) : Bool :=
  !(startsWith start classHead || startsWith start classEnd || isClassLine start)

theorem isClassLine_append {start : String} (h : isOther start = true) (rest : String) :
    isClassLine (start ++ rest) = false := by
  simp only [isOther, isClassLine, startsWith, Bool.not_eq_true', Bool.or_eq_false_iff] at h
  have hmark (mark : String) (h₁ : start.toList.isPrefixOf mark.toList = false)
      (h₂ : mark.toList.isPrefixOf start.toList = false) :
      startsWith mark (start ++ rest) = false := by
    by_contra hstart
    have hprefix : mark.toList <+: start.toList ++ rest.toList := by
      simpa [startsWith] using hstart
    rcases List.prefix_or_prefix_of_prefix hprefix (List.prefix_append _ _) with hp | hp
    · exact absurd (List.isPrefixOf_iff_prefix.mpr hp) (Bool.eq_false_iff.mp h₂)
    · exact absurd (List.isPrefixOf_iff_prefix.mpr hp) (Bool.eq_false_iff.mp h₁)
  rw [isClassLine, hmark classHead h.1.1 h.2.1, hmark classEnd h.1.2 h.2.2]
  rfl

theorem isClassLine_words (word : String) (h : isOther word = true) (ws : List String) :
    isClassLine (words (word :: ws)) = false := by
  obtain ⟨rest, hrest⟩ := exists_words_cons word ws
  rw [hrest]
  exact isClassLine_append h rest

theorem classLines_byteDirective {start : String} (h : isOther start = true) (rest : String)
    (data : Bytes) : classLines (byteDirective (start ++ rest) data) = [] := by
  refine classLines_map_line fun line hline => ?_
  rcases mem_byteLines hline with ⟨more, rfl⟩ | ⟨more, rfl⟩
  · rw [String.append_assoc]
    exact isClassLine_append h _
  · exact isClassLine_append (by decide) more

theorem classLines_customAttributes (attributes : List CustomAttribute) :
    classLines (customAttributes attributes) = [] := by
  refine classLines_eq_nil fun a _ => ?_
  split
  · rw [classLines_line, isClassLine_append (by decide)]
    rfl
  · exact classLines_byteDirective (by decide) _ _

theorem isClassLine_closeBlock {start : String} (h : isOther (closeBlock ++ start) = true)
    (rest : String) : isClassLine (closeBlock ++ (start ++ rest)) = false := by
  rw [← String.append_assoc]
  exact isClassLine_append h rest

theorem isClassLine_commented {start : String} (h : isOther start = true) (rest : String)
    (comment? : Option String) : isClassLine (commented (start ++ rest) comment?) = false := by
  cases comment? with
  | none => exact isClassLine_append h rest
  | some comment =>
    rw [commented, String.append_assoc, String.append_assoc]
    exact isClassLine_append h _

@[simp] theorem isClassLine_empty : isClassLine "" = false := by decide

@[simp] theorem isClassLine_open : isClassLine openBlock = false := by decide

@[simp] theorem isClassLine_close : isClassLine closeBlock = false := by decide

/-! ### The sections around the types -/

theorem classLines_culture (name : String) : classLines (culture name) = [] := by
  simp (disch := decide) [culture, String.append_assoc, isClassLine_append]

theorem classLines_key {start : String} (h : isOther start = true) (data : Bytes) :
    classLines (byteDirective start data) = [] := by
  simpa using classLines_byteDirective h "" data

theorem classLines_reference (r : AssemblyReference) : classLines (reference r) = [] := by
  have hhead : isClassLine ((if r.isRetargetable then ".assembly extern retargetable"
      else ".assembly extern") ++ " " ++ Identifier.escapeDotted r.name) = false := by
    rw [String.append_assoc]
    split <;> exact isClassLine_append (by decide) _
  have hkey : classLines (byteDirective
      (if r.hasFullKey then ".publickey" else ".publickeytoken") r.keyOrToken) = [] := by
    refine classLines_key ?_ r.keyOrToken
    split <;> decide
  simp (disch := decide) [reference, hhead, hkey, classLines_culture, isClassLine_append]

theorem classLines_references (image : ModuleImage) : classLines (references image) = [] := by
  have hreferences : classLines (image.references.flatMap reference) = [] :=
    classLines_eq_nil fun r _ => classLines_reference r
  simp [references, hreferences]

theorem classLines_identity (a : AssemblyIdentity) : classLines (identity a) = [] := by
  have hhead : isClassLine ((if a.isRetargetable then ".assembly retargetable"
      else ".assembly") ++ " " ++ Identifier.escapeDotted a.name) = false := by
    rw [String.append_assoc]
    split <;> exact isClassLine_append (by decide) _
  simp (disch := decide) [identity, hhead, classLines_key, classLines_culture,
    classLines_customAttributes, isClassLine_append, isClassLine_commented]

theorem classLines_assembly (image : ModuleImage) : classLines (assembly image) = [] := by
  unfold assembly
  split
  · exact classLines_identity _
  · rfl

theorem classLines_moduleHeader (image : ModuleImage) (skipMvid : Bool) :
    classLines (moduleHeader image skipMvid) = [] := by
  simp (disch := decide) [moduleHeader, classLines_customAttributes, isClassLine_append,
    isClassLine_commented]

/-! ### Members -/

theorem classLines_field (f : FieldDefinition) : classLines (field f) = [] := by
  have hhead := isClassLine_words ".field" (by decide)
  simp [field, hhead, classLines_customAttributes]

theorem isClassLine_label (offset : Int) (rest : String) :
    isClassLine (label offset ++ rest) = false := by
  rw [label, String.append_assoc]
  exact isClassLine_append (by decide) _

theorem classLines_body (b : MethodBody) : classLines (body b) = [] := by
  have hlocals : classLines (localVariables b) = [] := by
    unfold localVariables
    split
    · rw [String.append_assoc, String.append_assoc]
      cases b.initLocals <;> simp (disch := decide) [isClassLine_append]
    · rfl
  have hinstruction : ∀ i ∈ b.instructions, isClassLine (instruction i) = false := by
    intro i _
    unfold instruction
    split <;> simp only [String.append_assoc, isClassLine_label]
  have hclause : ∀ c ∈ b.exceptionClauses, isClassLine (exceptionClause c) = false := by
    intro c _
    simp only [exceptionClause, String.append_assoc]
    exact isClassLine_append (by decide) _
  simp (disch := decide) [body, hlocals, classLines_map_line hinstruction,
    classLines_map_line hclause, isClassLine_append, String.append_assoc]

theorem classLines_method (owner : TypeInfo) (m : MethodDefinition) :
    classLines (method owner m) = [] := by
  have hhead : isClassLine (methodHead m) = false := isClassLine_words ".method" (by decide) _
  have hentry : isClassLine ".entrypoint" = false := by decide
  have hend : isClassLine (closeBlock ++ " // end of method " ++ owner.name ++ "::" ++ m.name) =
      false := by
    simp only [String.append_assoc]
    exact isClassLine_closeBlock (by decide) _
  unfold method
  cases m.body? <;> simp [hhead, hentry, hend, classLines_customAttributes, classLines_body]

/-- Accessors whose directives imitate lines that begin or end a class. -/
def strayAccessors (accessors : List Accessor) : List String :=
  (accessors.map fun a => a.directive ++ " " ++ a.method).filter isClassLine

theorem classLines_memberBlock (attributes : List CustomAttribute) (accessors : List Accessor) :
    classLines (memberBlock attributes accessors) = strayAccessors accessors := by
  have haccessors : classLines (accessors.map fun a => .line (a.directive ++ " " ++ a.method)) =
      strayAccessors accessors := by
    induction accessors with
    | nil => rfl
    | cons a accessors ih => simp [strayAccessors, List.filter_cons, ih]
  simp [memberBlock, classLines_customAttributes, haccessors]

theorem isClassLine_nonemptyWords (word : String) (h : isOther word = true) (ws : List String) :
    isClassLine (nonemptyWords (word :: ws)) = false := by
  have hne : word ≠ "" := by
    rintro rfl
    exact absurd h (by decide)
  obtain ⟨rest, hrest⟩ := exists_nonemptyWords_cons hne ws
  rw [hrest]
  exact isClassLine_append h rest

theorem classLines_property (p : PropertyDefinition) :
    classLines (property p) = strayAccessors p.accessors := by
  have hhead := isClassLine_nonemptyWords ".property" (by decide)
  have hend : isClassLine (closeBlock ++ " // end of property " ++ p.name) = false := by
    rw [String.append_assoc]
    exact isClassLine_closeBlock (by decide) _
  simp [property, hhead, hend, classLines_memberBlock]

theorem classLines_event (e : EventDefinition) :
    classLines (event e) = strayAccessors e.accessors := by
  have hhead := isClassLine_nonemptyWords ".event" (by decide)
  have hend : isClassLine (closeBlock ++ " // end of event " ++ e.name) = false := by
    rw [String.append_assoc]
    exact isClassLine_closeBlock (by decide) _
  simp [event, hhead, hend, classLines_memberBlock]

/-! ### Types -/

/-- The line that ends a type. -/
def typeEnd (t : TypeInfo) : String :=
  closeBlock ++ " // end of class " ++ t.fullName

theorem startsWith_append (start rest : String) : startsWith start (start ++ rest) = true := by
  simp [startsWith]

theorem isClassLine_typeHead (t : TypeInfo) : isClassLine (typeHead t) = true := by
  have hhead : ∃ rest, typeHead t = classHead ++ rest := by
    unfold typeHead
    cases t.attributes with
    | nil => exact ⟨_, String.intercalate_cons_cons⟩
    | cons a as => exact ⟨_, String.intercalate_cons_cons⟩
  obtain ⟨rest, hrest⟩ := hhead
  rw [hrest, isClassLine, startsWith_append, Bool.true_or]

theorem isClassLine_typeEnd (t : TypeInfo) : isClassLine (typeEnd t) = true := by
  have hend : typeEnd t = classEnd ++ t.fullName := rfl
  rw [hend, isClassLine, startsWith_append, Bool.or_true]

/-- Lines about the members of a type that imitate lines that begin or end a class. -/
def strays (order : MemberOrder) (t : TypeInfo) : List String :=
  ((order.arrange t.properties).flatMap fun p => strayAccessors p.accessors) ++
    (order.arrange t.events).flatMap fun e => strayAccessors e.accessors

theorem classLines_heritage (t : TypeInfo) : classLines (heritage t) = [] := by
  unfold heritage
  cases t.extends? <;> simp (disch := decide) [isClassLine_append]

theorem classLines_group (heading : String) (members : List (List Step)) :
    classLines (group heading members) = members.flatMap classLines := by
  have hheading : isClassLine ("// " ++ heading) = false := isClassLine_append (by decide) heading
  have hflatten : classLines members.flatten = members.flatMap classLines := by
    rw [← List.flatMap_id, classLines_flatMap]
    rfl
  cases members with
  | nil => rfl
  | cons m ms =>
    rw [group, List.isEmpty_cons, if_neg Bool.false_ne_true, List.cons_append, classLines_line,
      hheading, classLines_append, hflatten]
    simp

/-- **The outline of a type**: the lines that begin and end it, and the outlines of the types in
    it between them. -/
theorem classLines_node (order : MemberOrder) (info : TypeInfo) (nested : List TypeDefinition) :
    classLines (type order (.node info nested)) =
      typeHead info :: ((order.arrange nested).flatMap fun t => classLines (type order t)) ++
        strays order info ++ [typeEnd info] := by
  have hfields : ((order.arrange info.fields).map field).flatMap classLines = [] := by
    rw [List.flatMap_map, List.flatMap_eq_nil_iff]
    exact fun f _ => classLines_field f
  have hmethods : ((order.arrange info.methods).map (method info)).flatMap classLines = [] := by
    rw [List.flatMap_map, List.flatMap_eq_nil_iff]
    exact fun m _ => classLines_method info m
  have hend : isClassLine (closeBlock ++ " // end of class " ++ info.fullName) = true :=
    isClassLine_typeEnd info
  rw [type_node, typeAround]
  simp only [classLines_append, classLines_line, classLines_deeper, classLines_group, hfields,
    hmethods, hend, isClassLine_typeHead, classLines_heritage, classLines_customAttributes,
    isClassLine_open, List.flatMap_map, classLines_property, classLines_event, strays, typeEnd]
  simp

/-- What a type on its own contributes to the class lines of a listing. -/
def ownLines (order : MemberOrder) (t : TypeInfo) : List String :=
  typeHead t :: typeEnd t :: strays order t

/-- By induction on the type: arranging the nested types only permutes their lines. -/
theorem classLines_type_perm (order : MemberOrder) : ∀ (t : TypeDefinition) (outer? : Option Token),
    (classLines (type order t)).Perm ((t.entries outer?).flatMap fun e => ownLines order e.2)
  | .node info nested, outer? => by
    have hnested : ((order.arrange nested).flatMap fun t => classLines (type order t)).Perm
        ((TypeDefinition.entriesOfEach (some info.token) nested).flatMap fun e =>
          ownLines order e.2) := by
      rw [TypeDefinition.entriesOfEach_eq_flatMap, List.flatMap_assoc]
      refine ((MemberOrder.arrange_perm order nested).flatMap_right _).trans ?_
      exact List.Perm.flatMap_left nested fun t ht => classLines_type_perm order t _
    rw [classLines_node, TypeDefinition.entries, List.flatMap_cons, ownLines]
    have hend : (((order.arrange nested).flatMap fun t => classLines (type order t)) ++
        strays order info ++ [typeEnd info]).Perm
          ((typeEnd info :: strays order info) ++
            ((order.arrange nested).flatMap fun t => classLines (type order t))) := by
      rw [List.append_assoc]
      exact List.perm_append_comm.trans (List.perm_append_singleton _ _ |>.append_right _)
    exact (hend.trans (hnested.append_left _)).cons _
  termination_by t => sizeOf t
  decreasing_by
    have := List.sizeOf_lt_of_mem ht
    simp only [TypeDefinition.node.sizeOf_spec]
    omega

/-! ### The whole listing -/

/-- The top-level types that are not taken for an empty holder of global members. -/
def keptTypes (image : ModuleImage) : List TypeDefinition :=
  image.types.filter fun t => !isEmptyModuleType t.info

/-- All types in a forest, at any depth. -/
def everyType (ts : List TypeDefinition) : List TypeInfo :=
  (TypeDefinition.entriesOfEach none ts).map (·.2)

theorem classLines_all (order : MemberOrder) (image : ModuleImage) :
    classLines (all order image) = classLines (contents order image) := by
  simp [all, classLines_references, classLines_assembly, classLines_moduleHeader]

theorem classLines_contents (order : MemberOrder) (image : ModuleImage) :
    classLines (contents order image) =
      ((order.arrange image.types).filter fun t => !isEmptyModuleType t.info).flatMap fun t =>
        classLines (type order t) := by
  rw [contents, classLines_flatMap]
  induction order.arrange image.types with
  | nil => rfl
  | cons t ts ih =>
    rw [List.flatMap_cons, List.filter_cons, ih]
    cases isEmptyModuleType t.info <;> simp

/-- The class lines of a listing are those of the types in the top-level types it keeps. -/
theorem classLines_all_perm (order : MemberOrder) (image : ModuleImage) :
    (classLines (all order image)).Perm
      ((everyType (keptTypes image)).flatMap (ownLines order)) := by
  rw [classLines_all, classLines_contents, everyType, List.flatMap_map,
    TypeDefinition.entriesOfEach_eq_flatMap, List.flatMap_assoc]
  refine (((MemberOrder.arrange_perm order image.types).filter _).flatMap_right _).trans ?_
  exact List.Perm.flatMap_left _ fun t _ => classLines_type_perm order t none

/-- The text of a listing is its lines, each behind some number of tabs. -/
theorem render_eq_join_lines (steps : List Step) : ∃ depths : List Nat,
    depths.length = (lines steps).length ∧
      Step.render steps =
        String.join ((List.zipWith (Output.place "\t") depths (lines steps)).map (· ++ "\n")) := by
  have hrun : ∀ (steps : List Step) (o : Output), o.indentText = "\t" → ∃ depths : List Nat,
      depths.length = (lines steps).length ∧
        (o.run steps).lines.toList =
          o.lines.toList ++ List.zipWith (Output.place "\t") depths (lines steps) := by
    intro steps
    induction steps with
    | nil => exact fun o _ => ⟨[], rfl, by simp [Output.run]⟩
    | cons step steps ih =>
      intro o ho
      obtain ⟨depths, hlength, hlines⟩ := ih (o.step step) (by cases step <;> exact ho)
      cases step with
      | line s =>
        refine ⟨o.depth :: depths, by simp [lines] at hlength ⊢; exact hlength, ?_⟩
        have hstep : (o.run (.line s :: steps)).lines = ((o.step (.line s)).run steps).lines := rfl
        rw [hstep, hlines]
        simp [Output.step, lines, ho]
      | indent => exact ⟨depths, hlength, hlines⟩
      | unindent => exact ⟨depths, hlength, hlines⟩
  obtain ⟨depths, hlength, hlines⟩ := hrun steps (Output.empty "\t") rfl
  refine ⟨depths, hlength, ?_⟩
  rw [Step.render, Output.text, hlines]
  rfl

/-! ### Nothing is lost -/

/-- Whether a type is the holder of global members and nothing at all is in it. -/
def isBlankModuleType (t : TypeDefinition) : Bool :=
  isEmptyModuleType t.info && t.info.properties.isEmpty && t.info.events.isEmpty &&
    t.info.customAttributes.isEmpty && t.nested.isEmpty

/-- The types that have something to be written: all in the forest but a blank holder of global
    members at the top. -/
def writableTypes (image : ModuleImage) : List TypeDefinition :=
  image.types.filter fun t => !isBlankModuleType t

theorem length_flatMap_filter_le {α β : Type} {p q : α → Bool} {f : α → List β}
    (hpq : ∀ x, p x = true → q x = true) (xs : List α) :
    ((xs.filter p).flatMap f).length ≤ ((xs.filter q).flatMap f).length := by
  have hsub : (xs.filter p).Sublist (xs.filter q) := List.monotone_filter_right xs hpq
  exact (hsub.flatMap f).length_le

/-- By induction on the list: an element that only the weaker filter keeps would make its side
    longer. -/
theorem forall_of_length_flatMap_filter_eq {α β : Type} {p q : α → Bool} {f : α → List β}
    (hpq : ∀ x, p x = true → q x = true) (hne : ∀ x, f x ≠ []) {xs : List α}
    (h : ((xs.filter p).flatMap f).length = ((xs.filter q).flatMap f).length) :
    ∀ x ∈ xs, q x = true → p x = true := by
  induction xs with
  | nil => simp
  | cons x xs ih =>
    have hle := length_flatMap_filter_le (f := f) hpq xs
    have hpos : 0 < (f x).length := List.length_pos_iff.mpr (hne x)
    cases hp : p x with
    | true =>
      rw [List.filter_cons_of_pos hp, List.filter_cons_of_pos (hpq x hp), List.flatMap_cons,
        List.flatMap_cons, List.length_append, List.length_append] at h
      have htail := ih (by omega)
      intro y hy hq
      rcases List.mem_cons.mp hy with rfl | hy
      · exact hp
      · exact htail y hy hq
    | false =>
      cases hq : q x with
      | true =>
        rw [List.filter_cons_of_neg (by simp [hp]), List.filter_cons_of_pos hq, List.flatMap_cons,
          List.length_append] at h
        omega
      | false =>
        rw [List.filter_cons_of_neg (by simp [hp]), List.filter_cons_of_neg (by simp [hq])] at h
        intro y hy hqy
        rcases List.mem_cons.mp hy with rfl | hy
        · simp [hq] at hqy
        · exact ih h y hy hqy

/-- **Which types are written.** The text of a listing is its lines behind tabs. The lines that
    begin and end classes are those of the types, at any depth, in the top-level types that are
    kept, one pair for each, with the pairs of the types inside between the two; accessors that
    imitate such lines come on top. Nothing but blank holders of global members is lost exactly if
    no top-level `<Module>` without fields and methods has anything else in it. -/
theorem types_written (order : MemberOrder) (image : ModuleImage) :
    (∃ depths : List Nat, depths.length = (lines (all order image)).length ∧
      render order image =
        String.join ((List.zipWith (Output.place "\t") depths (lines (all order image))).map
          (· ++ "\n"))) ∧
    (∀ info nested, classLines (type order (.node info nested)) =
      typeHead info :: ((order.arrange nested).flatMap fun t => classLines (type order t)) ++
        strays order info ++ [typeEnd info]) ∧
    (classLines (all order image)).Perm
      ((everyType (keptTypes image)).flatMap (ownLines order)) ∧
    ((classLines (all order image)).Perm
        ((everyType (writableTypes image)).flatMap (ownLines order)) ↔
      ∀ t ∈ image.types, isEmptyModuleType t.info = true → isBlankModuleType t = true) := by
  refine ⟨render_eq_join_lines _, classLines_node order, classLines_all_perm order image, ?_⟩
  have hweaker : ∀ t : TypeDefinition, (!isEmptyModuleType t.info) = true →
      (!isBlankModuleType t) = true := by
    intro t ht
    simp only [Bool.not_eq_true'] at ht
    simp [isBlankModuleType, ht]
  have hevery (ts : List TypeDefinition) : (everyType ts).flatMap (ownLines order) =
      ts.flatMap fun t => (t.entries none).flatMap fun e => ownLines order e.2 := by
    rw [everyType, List.flatMap_map, TypeDefinition.entriesOfEach_eq_flatMap, List.flatMap_assoc]
  constructor
  · intro hperm t ht hempty
    have hlength := ((classLines_all_perm order image).symm.trans hperm).length_eq
    rw [hevery, hevery] at hlength
    have hown : ∀ t : TypeDefinition,
        ((t.entries none).flatMap fun e => ownLines order e.2) ≠ [] := by
      rintro ⟨info, nested⟩
      simp [TypeDefinition.entries, ownLines]
    have hkept := forall_of_length_flatMap_filter_eq hweaker hown hlength t ht
    simp only [Bool.not_eq_true', hempty, Bool.true_eq_false, imp_false, Bool.not_eq_false]
      at hkept
    exact hkept
  · intro hblank
    have hsame : writableTypes image = keptTypes image := by
      refine List.filter_congr fun t ht => ?_
      cases hempty : isEmptyModuleType t.info with
      | true => rw [hblank t ht hempty]
      | false => simpa using hweaker t (by rw [hempty]; rfl)
    rw [hsame]
    exact classLines_all_perm order image

/-- A module whose holder of global members has nothing but a type in it. -/
def globalTypeImage : ModuleImage :=
  let info (name : String) (enclosing? : Option String) : TypeInfo :=
    ⟨name, "", [], none, [], [], enclosing?, [], [], [], [], [], Token.ofRow TableNumber.typeDef 1⟩
  { path := "", assembly? := none, references := [],
    header := ⟨"A.dll", "", 0, 0, 0, 0, 0, []⟩,
    types := [.node (info "<Module>" none) [.node (info "Inner" (some "<Module>")) []]] }

/-- The type inside is not written, although it is not a blank holder of global members, and
    neither is the one around it. -/
theorem types_written_global :
    (everyType (writableTypes globalTypeImage)).map typeHead =
      [".class '<Module>'", ".class Inner"] ∧
    contents .byName globalTypeImage = [] ∧ classLines (all .byName globalTypeImage) = [] := by
  have hcontents : contents .byName globalTypeImage = [] := by
    simp [contents, globalTypeImage, MemberOrder.arrange, TypeDefinition.info, isEmptyModuleType]
  refine ⟨by decide +kernel, hcontents, ?_⟩
  rw [classLines_all, hcontents]
  rfl

end ILDump.Listing
