import ILDump.Proofs.Listing.Depths
import ILDump.Proofs.Listing.Rearrangement

/-!
# Sections and members are blocks

Everything that is written for a part of a module is a block: it comes back to the depth it
finds, never goes back from depth zero, and its braces match. It needs no look at names or
texts, since each line starts with a mark of its own, accessors apart: there the directive
comes first, and one that starts with a brace would pass for the end of something.
-/

namespace ILDump

/-! ### Accessors of types -/

/-- What holds of all accessors of a type. -/
def TypeInfo.EachAccessor (good : Accessor → Prop) (t : TypeInfo) : Prop :=
  (∀ p ∈ t.properties, ∀ a ∈ p.accessors, good a) ∧ ∀ e ∈ t.events, ∀ a ∈ e.accessors, good a

/-- What holds of all accessors of a type and of the types in it, at any depth. -/
inductive TypeDefinition.EachAccessor (good : Accessor → Prop) : TypeDefinition → Prop where
  | node {info : TypeInfo} {nested : List TypeDefinition} :
    info.EachAccessor good → (∀ t ∈ nested, TypeDefinition.EachAccessor good t) →
    TypeDefinition.EachAccessor good (.node info nested)

def ModuleImage.EachAccessor (good : Accessor → Prop) (image : ModuleImage) : Prop :=
  ∀ t ∈ image.types, t.EachAccessor good

/-- Whether the directive of an accessor starts with a dot. -/
def Accessor.IsDotted (a : Accessor) : Prop :=
  a.directive.toList.head? = some '.'

namespace Listing

open Step

/-! ### How lines start -/

def startsPlain (start : String) : Bool :=
  start.toList.head?.any fun c => c ≠ '\x7b' && c ≠ '\x7d'

theorem isPlain_append {start : String} (h : startsPlain start = true) (rest : String) :
    IsPlain (start ++ rest) := by
  rw [startsPlain, Option.any_eq_true] at h
  obtain ⟨c, hc, hbraces⟩ := h
  have hhead : (start ++ rest).toList.head? = some c := by
    rw [String.toList_append, List.head?_append, hc]
    rfl
  simp only [ne_eq, decide_not, Bool.and_eq_true, Bool.not_eq_true', decide_eq_false_iff_not]
    at hbraces
  constructor
  · intro hopen
    rw [hopen] at hhead
    exact hbraces.1 (Option.some.inj hhead).symm
  · intro hclosing
    exact hbraces.2 (Option.some.inj (hhead.symm.trans hclosing))

theorem isClosing_append (rest : String) : IsClosing (closeBlock ++ rest) := by
  rw [IsClosing, String.toList_append]
  rfl

/-! ### Writers of lines -/

variable {allowed : String → Prop} (hplain : ∀ text, IsPlain text → allowed text)

include hplain

theorem allowed_append {start : String} (h : startsPlain start = true) (rest : String) :
    allowed (start ++ rest) :=
  hplain _ (isPlain_append h rest)

theorem allowed_words {word : String} (h : startsPlain word = true) (ws : List String) :
    allowed (words (word :: ws)) := by
  obtain ⟨rest, hrest⟩ := exists_words_cons word ws
  rw [hrest]
  exact allowed_append hplain h rest

theorem allowed_nonemptyWords {word : String} (h : startsPlain word = true) (ws : List String) :
    allowed (nonemptyWords (word :: ws)) := by
  have hword : word ≠ "" := by
    rintro rfl
    exact absurd h (by decide)
  obtain ⟨rest, hrest⟩ := exists_nonemptyWords_cons hword ws
  rw [hrest]
  exact allowed_append hplain h rest

theorem allowed_commented {start : String} (h : startsPlain start = true) (rest : String)
    (comment? : Option String) : allowed (commented (start ++ rest) comment?) := by
  cases comment? with
  | none => exact allowed_append hplain h rest
  | some comment =>
    rw [commented, String.append_assoc, String.append_assoc]
    exact allowed_append hplain h _

theorem allowed_empty : allowed "" :=
  hplain "" (by decide)

theorem block_byteDirective {start : String} (h : startsPlain start = true) (rest : String)
    (data : Bytes) : Block allowed (byteDirective (start ++ rest) data) := by
  refine Block.lines fun line hline => ?_
  rcases mem_byteLines hline with ⟨more, rfl⟩ | ⟨more, rfl⟩
  · rw [String.append_assoc]
    exact allowed_append hplain h _
  · exact allowed_append hplain (by decide) more

theorem block_key {start : String} (h : startsPlain start = true) (data : Bytes) :
    Block allowed (byteDirective start data) := by
  have hblock := block_byteDirective hplain h "" data
  rwa [String.append_empty] at hblock

theorem block_customAttributes (attributes : List CustomAttribute) :
    Block allowed (customAttributes attributes) := by
  refine Block.flatMap fun a _ => Block.ite (fun _ => ?_) fun _ => ?_
  · exact .one (allowed_append hplain (by decide) _)
  · exact block_byteDirective hplain (by decide) _ _

theorem block_culture (name : String) : Block allowed (culture name) := by
  refine Block.ite (fun _ => .nil) fun _ => .one ?_
  rw [String.append_assoc]
  exact allowed_append hplain (by decide) _

/-! ### Sections -/

theorem block_reference (r : AssemblyReference) : Block allowed (reference r) := by
  have hhead : allowed ((if r.isRetargetable then ".assembly extern retargetable"
      else ".assembly extern") ++ " " ++ Identifier.escapeDotted r.name) := by
    rw [String.append_assoc]
    split <;> exact allowed_append hplain (by decide) _
  have hkey : Block allowed (byteDirective
      (if r.hasFullKey then ".publickey" else ".publickeytoken") r.keyOrToken) := by
    split <;> exact block_key hplain (by decide) _
  refine .body hhead (by decide) (.append (.append ?_ ?_) ?_) .nil
  · exact .ite (fun _ => .nil) fun _ => hkey
  · exact block_culture hplain r.culture
  · exact .one (allowed_append hplain (by decide) _)

theorem block_references (image : ModuleImage) : Block allowed (references image) := by
  refine .append (.flatMap fun r _ => block_reference hplain r) ?_
  exact .ite (fun _ => .nil) fun _ => .one (allowed_empty hplain)

theorem block_identity (a : AssemblyIdentity) : Block allowed (identity a) := by
  have hhead : allowed ((if a.isRetargetable then ".assembly retargetable" else ".assembly") ++
      " " ++ Identifier.escapeDotted a.name) := by
    rw [String.append_assoc]
    split <;> exact allowed_append hplain (by decide) _
  refine .body hhead (by decide) (.append (.append (.append (.append ?_ ?_) ?_) ?_) ?_) .nil
  · exact block_customAttributes hplain a.customAttributes
  · exact .ite (fun _ => .nil) fun _ => block_key hplain (by decide) _
  · exact .one (allowed_commented hplain (by decide) _ _)
  · exact block_culture hplain a.culture
  · exact .one (allowed_append hplain (by decide) _)

theorem block_assembly (image : ModuleImage) : Block allowed (assembly image) := by
  unfold assembly
  cases image.assembly? with
  | none => exact .nil
  | some a => exact block_identity hplain a

theorem block_moduleHeader (image : ModuleImage) (skipMvid : Bool) :
    Block allowed (moduleHeader image skipMvid) := by
  refine .append (.append (.append ?_ ?_) ?_) ?_
  · exact .one (allowed_append hplain (by decide) _)
  · exact block_customAttributes hplain image.header.customAttributes
  · exact .ite (fun _ => .nil) fun _ => .one (allowed_append hplain (by decide) _)
  · refine .line (allowed_append hplain (by decide) _) ?_
    refine .line (allowed_append hplain (by decide) _) ?_
    refine .line (allowed_append hplain (by decide) _) ?_
    refine .line (allowed_commented hplain (by decide) _ _) ?_
    exact .one (allowed_commented hplain (by decide) _ _)

/-! ### Members -/

theorem block_field (f : FieldDefinition) : Block allowed (field f) :=
  .line (allowed_words hplain (by decide) _) (block_customAttributes hplain f.customAttributes)

theorem block_localVariables (b : MethodBody) : Block allowed (localVariables b) := by
  unfold localVariables
  cases b.locals? with
  | none => exact .nil
  | some locals =>
    refine .ite (fun _ => .nil) fun _ => .one ?_
    rw [String.append_assoc, String.append_assoc]
    split <;> exact allowed_append hplain (by decide) _

theorem allowed_instruction (i : Instruction) : allowed (instruction i) := by
  unfold instruction label
  cases i.operand? with
  | none =>
    simp only [String.append_assoc]
    exact allowed_append hplain (by decide) _
  | some operand =>
    simp only [String.append_assoc]
    exact allowed_append hplain (by decide) _

theorem block_body (b : MethodBody) : Block allowed (body b) := by
  refine .append (.append (.append (.append ?_ ?_) ?_) ?_) ?_
  · refine .line ?_ (.one (allowed_append hplain (by decide) _))
    simp only [String.append_assoc]
    exact allowed_append hplain (by decide) _
  · exact block_localVariables hplain b
  · exact .one (allowed_empty hplain)
  · rw [← Function.comp_def Step.line, ← List.map_map]
    refine .lines fun text htext => ?_
    obtain ⟨i, -, rfl⟩ := List.mem_map.mp htext
    exact allowed_instruction hplain i
  · rw [← Function.comp_def Step.line, ← List.map_map]
    refine .lines fun text htext => ?_
    obtain ⟨c, -, rfl⟩ := List.mem_map.mp htext
    simp only [exceptionClause, String.append_assoc]
    exact allowed_append hplain (by decide) _

theorem block_method (owner : TypeInfo) (m : MethodDefinition) : Block allowed (method owner m) := by
  refine .body (allowed_words hplain (by decide) _) ?_ (.append (.append ?_ ?_) ?_)
    (.one (allowed_empty hplain))
  · simp only [String.append_assoc]
    exact isClosing_append _
  · exact block_customAttributes hplain m.customAttributes
  · exact .ite (fun _ => .one (hplain _ (by decide))) fun _ => .nil
  · cases m.body? with
    | none => exact .nil
    | some b => exact block_body hplain b

def accessorLine (a : Accessor) : String :=
  a.directive ++ " " ++ a.method

theorem block_memberBlock (attributes : List CustomAttribute) {accessors : List Accessor}
    (h : ∀ a ∈ accessors, allowed (accessorLine a)) :
    Block allowed (customAttributes attributes ++
      accessors.map fun a => .line (a.directive ++ " " ++ a.method)) := by
  refine .append (block_customAttributes hplain attributes) ?_
  have hlines : Block allowed ((accessors.map accessorLine).map .line) := by
    refine .lines fun text htext => ?_
    obtain ⟨a, ha, rfl⟩ := List.mem_map.mp htext
    exact h a ha
  rwa [List.map_map] at hlines

theorem block_property {p : PropertyDefinition} (h : ∀ a ∈ p.accessors, allowed (accessorLine a)) :
    Block allowed (property p) := by
  refine .body (allowed_nonemptyWords hplain (by decide) _) ?_
    (block_memberBlock hplain p.customAttributes h) .nil
  simp only [String.append_assoc]
  exact isClosing_append _

theorem block_event {e : EventDefinition} (h : ∀ a ∈ e.accessors, allowed (accessorLine a)) :
    Block allowed (event e) := by
  refine .body (allowed_nonemptyWords hplain (by decide) _) ?_
    (block_memberBlock hplain e.customAttributes h) .nil
  simp only [String.append_assoc]
  exact isClosing_append _

/-! ### Types -/

theorem block_heritage (t : TypeInfo) : Block allowed (heritage t) := by
  refine .indented (.append ?_ (.ite (fun _ => .nil) fun _ => ?_))
  · cases t.extends? with
    | none => exact .nil
    | some base =>
      exact .ite (fun _ => .nil) fun _ => .one (allowed_append hplain (by decide) _)
  · exact .one (allowed_append hplain (by decide) _)

theorem block_group (heading : String) {members : List (List Step)}
    (h : ∀ steps ∈ members, Block allowed steps) : Block allowed (group heading members) := by
  refine .ite (fun _ => .nil) fun _ => ?_
  exact .append (.line (allowed_append hplain (by decide) _) (.flatten h)) (.one (allowed_empty hplain))

theorem block_members {α : Type} [Listed α] (order : MemberOrder) (heading : String)
    {write : α → List Step} {members : List α} (h : ∀ m ∈ members, Block allowed (write m)) :
    Block allowed (group heading ((order.arrange members).map write)) := by
  refine block_group hplain heading fun steps hsteps => ?_
  obtain ⟨m, hm, rfl⟩ := List.mem_map.mp hsteps
  exact h m ((order.arrange_perm members).mem_iff.mp hm)

variable {good : Accessor → Prop} (hgood : ∀ a, good a → allowed (accessorLine a))

include hgood

theorem block_typeAround (order : MemberOrder) {t : TypeInfo} (ht : t.EachAccessor good)
    {nested : List (List Step)} (hnested : ∀ steps ∈ nested, Block allowed steps) :
    Block allowed (typeAround order t nested) := by
  have hinside : Block allowed (customAttributes t.customAttributes ++
      group "Nested Types" nested ++
      group "Fields" ((order.arrange t.fields).map field) ++
      group "Methods" ((order.arrange t.methods).map (method t)) ++
      group "Properties" ((order.arrange t.properties).map property) ++
      group "Events" ((order.arrange t.events).map event)) := by
    refine .append (.append (.append (.append (.append ?_ ?_) ?_) ?_) ?_) ?_
    · exact block_customAttributes hplain t.customAttributes
    · exact block_group hplain "Nested Types" hnested
    · exact block_members hplain order "Fields" fun f _ => block_field hplain f
    · exact block_members hplain order "Methods" fun m _ => block_method hplain t m
    · refine block_members hplain order "Properties" fun p hp => ?_
      exact block_property hplain fun a ha => hgood a (ht.1 p hp a ha)
    · refine block_members hplain order "Events" fun e he => ?_
      exact block_event hplain fun a ha => hgood a (ht.2 e he a ha)
  have hend : IsClosing (closeBlock ++ " // end of class " ++ t.fullName) := by
    rw [String.append_assoc]
    exact isClosing_append _
  have hbraces := Block.braces hend hinside (show Block allowed [] from .nil)
  rw [typeAround, List.append_assoc, List.append_assoc, List.append_assoc]
  refine .append (.one (allowed_words hplain (by decide) _)) (.append (block_heritage hplain t) ?_)
  exact hbraces

/-- By induction on the type: the types in it are blocks, in whatever order they stand. -/
theorem block_type (order : MemberOrder) : ∀ {t : TypeDefinition}, t.EachAccessor good →
    Block allowed (type order t)
  | .node info nested, .node hinfo hnested => by
    rw [type_node]
    refine block_typeAround hplain hgood order hinfo fun steps hsteps => ?_
    obtain ⟨t, ht, rfl⟩ := List.mem_map.mp hsteps
    exact block_type order (hnested t ((order.arrange_perm nested).mem_iff.mp ht))

theorem block_contents (order : MemberOrder) {image : ModuleImage}
    (h : image.EachAccessor good) : Block allowed (contents order image) := by
  refine .flatMap fun t ht => .ite (fun _ => .nil) fun _ => ?_
  have hmem := (order.arrange_perm image.types).mem_iff.mp ht
  exact .append (block_type hplain hgood order (h t hmem)) (.one (allowed_empty hplain))

end Listing

end ILDump
