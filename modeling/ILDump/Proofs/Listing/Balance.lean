import ILDump.Proofs.Listing.Blocks

/-!
# Balanced output

The depth of the output is changed by every writer and never reset, and it stops at zero, so a
missing or a second step back could go unseen. `Balanced` says what a writer owes to the ones
around it, begun at any depth: it comes back there, it never steps back from zero, no line of
it stands further out, and its braces match, each with its pair at the same depth and with
everything between the two deeper. All of it follows from the form of blocks.
-/

namespace ILDump.Listing

open Step

/-! ### Matching braces -/

/-- Lines whose braces match: between an opening line and the closing line at its depth, all
    lines are deeper or empty, and braces match again. -/
inductive Nested : List (Nat × String) → Prop where
  | nil : Nested []
  | line {depth : Nat} {text : String} {rest : List (Nat × String)} :
    IsPlain text → Nested rest → Nested ((depth, text) :: rest)
  | braces {depth : Nat} {closing : String} {inner rest : List (Nat × String)} :
    IsClosing closing → Nested inner → (∀ l ∈ inner, l.2 = "" ∨ depth < l.1) → Nested rest →
    Nested ((depth, openBlock) :: (inner ++ (depth, closing) :: rest))

theorem Nested.append {xs ys : List (Nat × String)} (hx : Nested xs) (hy : Nested ys) :
    Nested (xs ++ ys) := by
  induction hx with
  | nil => exact hy
  | line htext _ ih => exact .line htext ih
  | braces hclosing hinner hdeeper _ _ ih =>
    rw [List.cons_append, List.append_assoc, List.cons_append]
    exact .braces hclosing hinner hdeeper ih

/-! ### What blocks do -/
namespace Block

variable {allowed : String → Prop} {xs : List Step}

/-- A step taken no further out than some depth, and further in if it goes back. -/
def IsWithin (depth : Nat) (v : Nat × Step) : Prop :=
  depth ≤ v.1 ∧ (v.2 = .unindent → depth < v.1)

theorem isWithin_line (depth : Nat) (text : String) : IsWithin depth (depth, .line text) :=
  ⟨Nat.le_refl depth, fun hs => by cases hs⟩

theorem isWithin_deeper (h : Block allowed xs) {depth : Nat} {rest : List Step}
    (hx : ∀ v ∈ visits (depth + 1) xs, IsWithin (depth + 1) v)
    (hrest : ∀ v ∈ visits depth rest, IsWithin depth v) :
    ∀ v ∈ visits depth (Listing.deeper xs ++ rest), IsWithin depth v := by
  intro v hv
  rw [h.visits_deeper, List.cons_append] at hv
  simp only [List.mem_cons, List.mem_append] at hv
  rcases hv with rfl | hv | rfl | hv
  · exact ⟨Nat.le_refl depth, fun hs => by cases hs⟩
  · obtain ⟨hle, hlt⟩ := hx v hv
    exact ⟨by omega, fun hs => Nat.lt_of_succ_lt (hlt hs)⟩
  · exact ⟨Nat.le_succ depth, fun _ => Nat.lt_succ_self depth⟩
  · exact hrest v hv

/-- No step of a block is taken further out than where the block begins, and no step goes back
    to further out. -/
theorem isWithin (h : Block allowed xs) (depth : Nat) :
    ∀ v ∈ visits depth xs, IsWithin depth v := by
  induction h generalizing depth with
  | nil => simp [visits]
  | line _ _ ih => exact List.forall_mem_cons.mpr ⟨isWithin_line depth _, ih depth⟩
  | deeper hinner _ ihinner ih => exact hinner.isWithin_deeper (ihinner (depth + 1)) (ih depth)
  | braces _ hinner _ ihinner ih =>
    refine List.forall_mem_cons.mpr ⟨isWithin_line depth _, ?_⟩
    refine hinner.isWithin_deeper (ihinner (depth + 1)) ?_
    exact List.forall_mem_cons.mpr ⟨isWithin_line depth _, ih depth⟩

theorem le_of_mem_linesAt (h : Block allowed xs) {depth : Nat} {l : Nat × String}
    (hl : l ∈ linesAt depth xs) : depth ≤ l.1 :=
  (h.isWithin depth _ (mem_linesAt.mp hl)).1

/-- By induction on the block: what is in braces begins one level deeper, so all its lines do. -/
theorem nested (h : Block IsPlain xs) (depth : Nat) : Nested (linesAt depth xs) := by
  induction h generalizing depth with
  | nil => exact .nil
  | line htext _ ih => exact .line htext (ih depth)
  | deeper hinner _ ihinner ih =>
    rw [hinner.linesAt_deeper]
    exact (ihinner (depth + 1)).append (ih depth)
  | braces hclosing hinner _ ihinner ih =>
    rw [linesAt_line, hinner.linesAt_deeper, linesAt_line]
    exact .braces hclosing (ihinner (depth + 1)) (fun l hl => .inr (hinner.le_of_mem_linesAt hl))
      (ih depth)

end Block

/-! ### Balance -/

/-- What steps begun at a depth owe to what is written around them. -/
structure Balanced (depth : Nat) (steps : List Step) : Prop where
  /-- The lines that are written are those at their depths. -/
  written : ∀ o : Output, o.depth = depth → (o.run steps).lines.toList = o.lines.toList ++
    (linesAt depth steps).map fun l => Output.place o.indentText l.1 l.2
  returns : ∀ o : Output, o.depth = depth → (o.run steps).depth = depth
  /-- No step goes back from depth zero. -/
  steady : ∀ o : Output, o.depth = depth → ∀ before after,
    steps = before ++ .unindent :: after → 0 < (o.run before).depth
  inside : ∀ l ∈ linesAt depth steps, l.2 ≠ "" → depth ≤ l.1
  nested : Nested (linesAt depth steps)

theorem Block.balanced {steps : List Step} (h : Block IsPlain steps) (depth : Nat) :
    Balanced depth steps where
  written := by
    rintro o rfl
    exact lines_run o steps
  returns := by
    rintro o rfl
    rw [depth_run, h.depthAfter_eq]
  steady := by
    rintro o rfl before after rfl
    have hvisit : (depthAfter o.depth before, Step.unindent) ∈
        visits o.depth (before ++ .unindent :: after) := by
      rw [visits_append, visits]
      simp
    have hlt := (h.isWithin o.depth _ hvisit).2 rfl
    rw [depth_run]
    exact Nat.zero_lt_of_lt hlt
  inside := fun _ hl _ => h.le_of_mem_linesAt hl
  nested := h.nested depth

theorem isPlain_accessorLine (a : Accessor) (h : a.IsDotted) : IsPlain (accessorLine a) := by
  rw [accessorLine, String.append_assoc]
  refine isPlain_append ?_ _
  rw [startsPlain, h]
  decide

/-- **Every writer is balanced**, whatever names and texts it writes and at whatever depth it
    begins, if the directives of accessors start with a dot. -/
theorem blocks_balanced (order : MemberOrder) (depth : Nat) :
    (∀ image, Balanced depth (references image)) ∧
    (∀ image, Balanced depth (assembly image)) ∧
    (∀ image skipMvid, Balanced depth (moduleHeader image skipMvid)) ∧
    (∀ image : ModuleImage, image.EachAccessor Accessor.IsDotted →
      Balanced depth (contents order image)) ∧
    (∀ t : TypeDefinition, t.EachAccessor Accessor.IsDotted → Balanced depth (type order t)) ∧
    (∀ f, Balanced depth (field f)) ∧
    (∀ owner m, Balanced depth (method owner m)) ∧
    (∀ p : PropertyDefinition, (∀ a ∈ p.accessors, a.IsDotted) → Balanced depth (property p)) ∧
    (∀ e : EventDefinition, (∀ a ∈ e.accessors, a.IsDotted) → Balanced depth (event e)) := by
  have hplain : ∀ text, IsPlain text → IsPlain text := fun _ h => h
  refine ⟨?_, ?_, ?_, ?_, ?_, ?_, ?_, ?_, ?_⟩
  · exact fun image => (block_references hplain image).balanced depth
  · exact fun image => (block_assembly hplain image).balanced depth
  · exact fun image skipMvid => (block_moduleHeader hplain image skipMvid).balanced depth
  · intro image himage
    exact (block_contents hplain isPlain_accessorLine order himage).balanced depth
  · intro t ht
    exact (block_type hplain isPlain_accessorLine order ht).balanced depth
  · exact fun f => (block_field hplain f).balanced depth
  · exact fun owner m => (block_method hplain owner m).balanced depth
  · intro p hp
    exact (block_property hplain fun a ha => isPlain_accessorLine a (hp a ha)).balanced depth
  · intro e he
    exact (block_event hplain fun a ha => isPlain_accessorLine a (he a ha)).balanced depth

def getter : Accessor := ⟨".get", "instance int32 C::get_P()"⟩

def sampleProperty : PropertyDefinition :=
  ⟨"P", "int32", [], ["instance"], [], [getter], [], ⟨1⟩⟩

def sampleEvent : EventDefinition := ⟨"E", "class H", [], [⟨".addon", "void C::add_E()"⟩], [], ⟨1⟩⟩

/-- A class with a property, and in it one with an event. -/
def sampleType : TypeDefinition :=
  let info (name : String) (enclosing? : Option String) (properties : List PropertyDefinition)
      (events : List EventDefinition) : TypeInfo :=
    ⟨name, "", [], some "object", [], [], enclosing?, [], [], properties, events, [⟨"A", [1]⟩], ⟨1⟩⟩
  .node (info "C" none [sampleProperty] []) [.node (info "D" (some "C") [] [sampleEvent]) []]

def sampleImage : ModuleImage :=
  ⟨"", ⟨"m.dll", "", 0, 0, 0, 0, 0, []⟩, none, [], [sampleType]⟩

theorem blocks_balanced_sample :
    (∀ a ∈ sampleProperty.accessors, a.IsDotted) ∧ (∀ a ∈ sampleEvent.accessors, a.IsDotted) ∧
    sampleType.EachAccessor Accessor.IsDotted ∧ sampleImage.EachAccessor Accessor.IsDotted ∧
    Balanced 0 (property sampleProperty) ∧ Balanced 1 (event sampleEvent) ∧
    Balanced 2 (type .byName sampleType) ∧ Balanced 3 (contents .byToken sampleImage) := by
  have hproperty : ∀ a ∈ sampleProperty.accessors, a.IsDotted := by
    simp [sampleProperty, getter, Accessor.IsDotted]
  have hevent : ∀ a ∈ sampleEvent.accessors, a.IsDotted := by
    simp [sampleEvent, Accessor.IsDotted]
  have htype : sampleType.EachAccessor Accessor.IsDotted := by
    refine .node ⟨by simpa using hproperty, by simp⟩ ?_
    simp only [List.mem_singleton, forall_eq]
    exact .node ⟨by simp, by simpa using hevent⟩ (by simp)
  have himage : sampleImage.EachAccessor Accessor.IsDotted := by
    intro t ht
    obtain rfl := List.mem_singleton.mp ht
    exact htype
  obtain ⟨-, -, -, -, -, -, -, hp, -⟩ := blocks_balanced .byName 0
  obtain ⟨-, -, -, -, -, -, -, -, he⟩ := blocks_balanced .byName 1
  obtain ⟨-, -, -, -, ht, -⟩ := blocks_balanced .byName 2
  obtain ⟨-, -, -, hi, -⟩ := blocks_balanced .byToken 3
  exact ⟨hproperty, hevent, htype, himage, hp _ hproperty, he _ hevent, ht _ htype, hi _ himage⟩

end ILDump.Listing
