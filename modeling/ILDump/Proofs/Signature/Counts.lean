import ILDump.Proofs.Signature.NestedTypes

/-!
# Declared counts

A signature says how many parameters, locals, arguments or numbers follow, and that many are read
or none: a number of items that are at least a byte each is at most the number of bytes behind
the count. So a count that is larger than what is left is a fault, before much has been read.
-/

namespace ILDump

/-! ### Ellipses in a parameter list -/

/-- Texts that do not start with a point. -/
def Opens (text : String) : Prop :=
  ∃ c cs, text.toList = c :: cs ∧ c ≠ '.'

theorem Opens.append {text : String} (h : Opens text) (more : String) : Opens (text ++ more) := by
  obtain ⟨c, cs, htext, hc⟩ := h
  exact ⟨c, cs ++ more.toList, by rw [String.toList_append, htext, List.cons_append], hc⟩

theorem Opens.ne_ellipsis {text : String} (h : Opens text) : text ≠ "..." := by
  obtain ⟨c, cs, htext, hc⟩ := h
  rintro rfl
  exact hc (List.cons.inj htext).1.symm

theorem Opens.withModifiers {text : String} (h : Opens text) (ms : List (Modifier String)) :
    Opens (withModifiers text ms) := by
  cases ms with
  | nil => exact h
  | cons m ms => exact (h.append " ").append _

theorem opens_kind (kind : NamedKind) : Opens kind.text := by
  cases kind <;> exact ⟨_, _, rfl, by decide⟩

theorem MethodSig.opens_functionText (s : MethodSig String) : Opens s.functionText := by
  have hmethod : Opens "method" := ⟨_, _, rfl, by decide⟩
  obtain ⟨word, words, hwords⟩ :=
    List.exists_cons_of_ne_nil (List.concat_ne_nil s.returnType s.callingConvention)
  rw [functionText, List.cons_append, hwords, String.intercalate_cons_cons, String.append_assoc,
    String.append_assoc, String.append_assoc, String.append_assoc]
  exact hmethod.append _

/-- No type is shown as an ellipsis. -/
theorem TypeSig.opens_text (t : TypeSig String) : Opens t.text := by
  cases t with
  | primitive p =>
    rw [text]
    cases p <;> exact ⟨_, _, rfl, by decide⟩
  | named kind name =>
    rw [text]
    exact ((opens_kind kind).append _).append _
  | pointer ms t =>
    rw [text]
    exact (t.opens_text.append _).withModifiers ms
  | byRef t =>
    rw [text]
    exact t.opens_text.append _
  | vector ms t =>
    rw [text]
    exact (t.opens_text.append _).withModifiers ms
  | array t rank sizes lowerBounds =>
    rw [text]
    exact ((t.opens_text.append _).append _).append _
  | typeVariable i =>
    rw [text]
    exact .append ⟨_, _, rfl, by decide⟩ _
  | methodVariable i =>
    rw [text]
    exact .append ⟨_, _, rfl, by decide⟩ _
  | generic kind name arguments =>
    rw [text]
    exact (((((opens_kind kind).append _).append _).append _).append _).append _
  | function s =>
    rw [text]
    exact (signatureTexts s).opens_functionText
  | modified ms t =>
    rw [text]
    exact t.opens_text.withModifiers ms
  | pinned t =>
    rw [text]
    exact t.opens_text.append _

/-- Without the ellipses, a parameter list has a text for each parameter. -/
theorem length_filter_parameterTexts (parameters : List (Parameter (TypeSig String))) :
    ((parameterTexts (TypeSig.typedParameters parameters)).filter (· ≠ "...")).length =
      parameters.length := by
  induction parameters with
  | nil => rfl
  | cons p parameters ih =>
    obtain ⟨afterSentinel, t⟩ := p
    have ht := t.opens_text.ne_ellipsis
    have hcons : parameterTexts (TypeSig.typedParameters (⟨afterSentinel, t⟩ :: parameters)) =
        (if afterSentinel then ["...", t.text] else [t.text]) ++
          parameterTexts (TypeSig.typedParameters parameters) := by
      rw [TypeSig.typedParameters]
      rfl
    rw [hcons, List.filter_append, List.length_append, ih, List.length_cons, Nat.add_comm]
    cases afterSentinel <;> simp [ht]

/-- A parameter list without sentinels has a text for each parameter, and no ellipses. -/
theorem length_parameterTexts_of_types (types : List (TypeSig String)) :
    (parameterTexts (TypeSig.typedParameters (types.map fun t => ⟨false, t⟩))).length =
      types.length := by
  induction types with
  | nil => rfl
  | cons t types ih =>
    rw [List.map_cons, TypeSig.typedParameters, parameterTexts, List.flatMap_cons,
      List.length_append, ← parameterTexts, ih, List.length_cons, Nat.add_comm]
    rfl

/-- The parameters of a signature as they are shown. -/
def MethodSig.shownParameters (s : MethodSig (TypeSig String)) : List String :=
  parameterTexts (TypeSig.typedParameters s.parameters)

namespace TypeSig

variable {ν : Type}

/-- The arguments of a generic type. -/
def arguments : TypeSig ν → List (TypeSig ν)
  | generic _ _ arguments => arguments
  | _ => []

/-- The sizes of an array, as far as they are given. -/
def sizes : TypeSig ν → List Nat
  | array _ _ sizes _ => sizes
  | _ => []

/-- The lower bounds of an array, as far as they are given. -/
def lowerBounds : TypeSig ν → List Int
  | array _ _ _ lowerBounds => lowerBounds
  | _ => []

end TypeSig

namespace Reader

variable {α β γ ν : Type}

/-! ### Items in a row -/

/-- As many items as are asked for are read, and there is a byte for each of them; more items than
    bytes are a fault. -/
structure Fills (item : Reader α) : Prop where
  counted : ∀ count c xs c', vector item count c = .ok xs c' →
    xs.length = count ∧ c.offset + count ≤ c'.offset
  tooMany : ∀ count c, c.rest.length < count → ∃ e c', vector item count c = .error e c'

/-- By induction on the count, with a byte for each item. -/
theorem Moves.vector_counted {item : Reader α} (h : Moves 1 item) {count : Nat} {c c' : Cursor}
    {xs : List α} (hrun : Reader.vector item count c = .ok xs c') :
    xs.length = count ∧ c.offset + count ≤ c'.offset := by
  induction count generalizing c xs with
  | zero =>
    cases hrun
    exact ⟨rfl, Nat.le_refl _⟩
  | succ count ih =>
    obtain ⟨x, middle, hfirst, hrun⟩ := exists_of_bind_run hrun
    obtain ⟨rest, c'', hrest, hrun⟩ := exists_of_bind_run hrun
    cases hrun
    obtain ⟨hlength, hroom⟩ := ih hrest
    have huses := h.uses hfirst
    refine ⟨by rw [List.length_cons, hlength], by omega⟩

theorem Moves.fills {item : Reader α} (h : Moves 1 item) : Fills item where
  counted _ _ _ _ hrun := h.vector_counted hrun
  tooMany count c hcount := by
    cases hrun : Reader.vector item count c with
    | error e c' => exact ⟨e, c', rfl⟩
    | ok xs c' =>
      have hroom := (h.vector_counted hrun).2
      have hitem : Moves 0 item := h.relax
      have hend := ((hitem.vector count).reaches_of_ok hrun).end_eq
      omega

/-! ### Productions with a count -/

/-- A production reads a count, which is what `header` reads, and a list of that many elements
    behind it, for which there is a byte each; a count that is larger than the number of bytes
    behind it is a fault. -/
structure Declares (header : Reader Nat) (production : Reader β) (elements : β → List γ) :
    Prop where
  counted : ∀ c b c', production c = .ok b c' → ∃ count behind, header c = .ok count behind ∧
    (elements b).length = count ∧ behind.offset + count ≤ c'.offset
  tooMany : ∀ c count behind, header c = .ok count behind → behind.rest.length < count →
    ∃ e c', production c = .error e c'

theorem Declares.of_counted {header : Reader Nat} {production : Reader β} {elements : β → List γ}
    {k m : Nat} (hheader : Moves k header) (hproduction : Moves m production)
    (counted : ∀ c b c', production c = .ok b c' → ∃ count behind,
      header c = .ok count behind ∧ (elements b).length = count ∧
      behind.offset + count ≤ c'.offset) : Declares header production elements where
  counted := counted
  tooMany c count behind hcount hmany := by
    cases hrun : production c with
    | error e c' => exact ⟨e, c', rfl⟩
    | ok b c' =>
      obtain ⟨count', behind', hcount', -, hroom⟩ := counted c b c' hrun
      rw [hcount] at hcount'
      cases hcount'
      have hstart := (hheader.reaches_of_ok hcount).end_eq
      have hend := (hproduction.reaches_of_ok hrun).end_eq
      omega

/-- The count behind a marker. -/
def countBehindMarker : Reader Nat := do
  let _ ← byte
  compressed

/-- The number of parameters of a method, behind the number of its generic parameters if it has
    one. -/
def methodCount : Reader Nat := do
  let convention ← byte
  if convention.toNat.testBit 4 then
    let _ ← compressed
    compressed
  else
    compressed

section Total

variable (name : Token → ν)

/-- The number of arguments of a generic type, behind its element byte. -/
def argumentCount : Reader Nat := do
  let _ ← genericKind
  let _ ← typeName (total name)
  compressed

/-- The number of sizes of an array, behind its element byte. -/
def sizeCount : Reader Nat := do
  let _ ← type (total name)
  let _ ← compressed
  compressed

/-- The number of lower bounds of an array, behind its element byte. -/
def lowerBoundCount : Reader Nat := do
  let count ← sizeCount name
  let _ ← vector compressed count
  compressed

/-- What follows a marker and a count is read from behind the count. -/
theorem exists_of_marked {p : UInt8 → Prop} [DecidablePred p] {fault : UInt8 → SignatureFault}
    {body : UInt8 → Nat → Reader β} {c c' : Cursor} {b : β}
    (hrun : (do
      let marker ← byte
      if p marker then throw (fault marker)
      let count ← compressed
      body marker count : Reader β) c = .ok b c') :
    ∃ marker count behind, countBehindMarker c = .ok count behind ∧
      body marker count behind = .ok b c' := by
  obtain ⟨marker, middle, hmarker, hrun⟩ := exists_of_bind_run hrun
  by_cases hp : p marker
  · rw [if_pos hp] at hrun
    cases hrun
  · rw [if_neg hp] at hrun
    obtain ⟨count, behind, hcount, hrun⟩ := exists_of_bind_run hrun
    exact ⟨marker, count, behind, (bind_eq_of_ok hmarker).trans hcount, hrun⟩

theorem moves_countBehindMarker : Moves 0 countBehindMarker :=
  moves_byte.relax.andThen fun _ => moves_compressed.relax

/-- A production that starts with a marker. -/
theorem moves_marked {p : UInt8 → Prop} [DecidablePred p] {fault : UInt8 → SignatureFault}
    {body : UInt8 → Nat → Reader β} (h : ∀ marker count, Moves 0 (body marker count)) :
    Moves 0 (do
      let marker ← byte
      if p marker then throw (fault marker)
      let count ← compressed
      body marker count) := by
  have hbyte : Moves 0 byte := moves_byte.relax
  have hnumber : Moves 0 compressed := moves_compressed.relax
  have hbody (marker : UInt8) : Moves 0 (compressed >>= body marker) := hnumber.andThen (h marker)
  exact hbyte.andThen fun marker => .ite (.andThen (.throw _) fun _ => hbody marker) (hbody marker)

/-- A marker, a count and items. -/
theorem declares_marked {item : Reader β} (h : Moves 1 item) {p : UInt8 → Prop} [DecidablePred p]
    {fault : UInt8 → SignatureFault} :
    Declares countBehindMarker (do
      let marker ← byte
      if p marker then throw (fault marker)
      let count ← compressed
      vector item count) id := by
  have hitem : Moves 0 item := h.relax
  refine .of_counted moves_countBehindMarker (moves_marked fun _ count => hitem.vector count) ?_
  intro c items c' hrun
  obtain ⟨_, count, behind, hcount, hrun⟩ := exists_of_marked hrun
  exact ⟨count, behind, hcount, h.vector_counted hrun⟩

theorem declares_locals : Declares countBehindMarker (locals (total name)) id :=
  declares_marked (moves_parameter name)

theorem declares_instantiation : Declares countBehindMarker (instantiation (total name)) id :=
  declares_marked (moves_type name)

theorem declares_property (name : Token → String) :
    Declares countBehindMarker (property (total name)) MethodSig.shownParameters := by
  have hparameter : Moves 0 (parameter (total name)) := (moves_parameter name).relax
  have hmoves : Moves 0 (property (total name)) := moves_marked fun _ count =>
    hparameter.andThen fun _ => (hparameter.vector count).andThen fun _ => .pure _
  refine .of_counted moves_countBehindMarker hmoves fun c s c' hrun => ?_
  obtain ⟨_, count, behind, hcount, hrun⟩ := exists_of_marked hrun
  obtain ⟨returnType, middle, hreturn, hrun⟩ := exists_of_bind_run hrun
  obtain ⟨types, stop, htypes, hrun⟩ := exists_of_bind_run hrun
  cases hrun
  obtain ⟨hlength, hroom⟩ := (moves_parameter name).vector_counted htypes
  have hle := ((moves_parameter name).reaches_of_ok hreturn).offset_le
  refine ⟨count, behind, hcount, ?_, by omega⟩
  rw [MethodSig.shownParameters, length_parameterTexts_of_types, hlength]

theorem moves_methodCount : Moves 0 methodCount := by
  have hbyte : Moves 0 byte := moves_byte.relax
  have hnumber : Moves 0 compressed := moves_compressed.relax
  exact hbyte.andThen fun _ => .ite (hnumber.andThen fun _ => hnumber) hnumber

theorem exists_of_parameters {τ : Type} {parameter : Reader τ} {c c' : Cursor} {s : MethodSig τ}
    {build : τ → List (Parameter τ) → MethodSig τ}
    (hrun : (do
      let count ← compressed
      let returnType ← parameter
      let parameters ← vector (methodParameter parameter) count
      return build returnType parameters : Reader (MethodSig τ)) c = .ok s c') :
    ∃ count behind middle returnType parameters, compressed c = .ok count behind ∧
      parameter behind = .ok returnType middle ∧
      vector (methodParameter parameter) count middle = .ok parameters c' ∧
      s = build returnType parameters := by
  obtain ⟨count, behind, hcount, hrun⟩ := exists_of_bind_run hrun
  obtain ⟨returnType, middle, hreturn, hrun⟩ := exists_of_bind_run hrun
  obtain ⟨parameters, stop, hparameters, hrun⟩ := exists_of_bind_run hrun
  cases hrun
  exact ⟨count, behind, middle, returnType, parameters, hcount, hreturn, hparameters, rfl⟩

/-- The count of a method's parameters, its return type and its parameters. -/
theorem exists_of_method {c c' : Cursor} {s : MethodSig (TypeSig ν)}
    (hrun : method (total name) c = .ok s c') : ∃ count behind middle returnType,
      methodCount c = .ok count behind ∧
      parameter (total name) behind = .ok returnType middle ∧
      vector (methodParameter (parameter (total name))) count middle = .ok s.parameters c' := by
  obtain ⟨convention, start, hconvention, hrun⟩ := exists_of_bind_run hrun
  rw [methodCount, bind_eq_of_ok hconvention]
  by_cases hgeneric : convention.toNat.testBit 4
  · rw [if_pos hgeneric, map_eq_pure_bind, bind_assoc] at hrun
    rw [if_pos hgeneric]
    obtain ⟨genericCount, next, hgenericCount, hrun⟩ := exists_of_bind_run hrun
    obtain ⟨count, behind, middle, returnType, parameters, hcount, hreturn, hparameters, rfl⟩ :=
      exists_of_parameters hrun
    rw [bind_eq_of_ok hgenericCount]
    exact ⟨count, behind, middle, returnType, hcount, hreturn, hparameters⟩
  · rw [if_neg hgeneric] at hrun
    rw [if_neg hgeneric]
    obtain ⟨count, behind, middle, returnType, parameters, hcount, hreturn, hparameters, rfl⟩ :=
      exists_of_parameters hrun
    exact ⟨count, behind, middle, returnType, hcount, hreturn, hparameters⟩

/-- The parameters apart from the ellipses. -/
theorem declares_method (name : Token → String) :
    Declares methodCount (method (total name))
      (fun s => s.shownParameters.filter (· ≠ "...")) := by
  refine .of_counted moves_methodCount (moves_method name) fun c s c' hrun => ?_
  obtain ⟨count, behind, middle, returnType, hcount, hreturn, hparameters⟩ :=
    exists_of_method name hrun
  obtain ⟨hlength, hroom⟩ := (moves_methodParameter name).vector_counted hparameters
  have hle := ((moves_parameter name).reaches_of_ok hreturn).offset_le
  refine ⟨count, behind, hcount, ?_, by omega⟩
  rw [MethodSig.shownParameters, length_filter_parameterTexts, hlength]

/-! ### Types with a count -/

theorem moves_argumentCount : Moves 0 (argumentCount name) :=
  moves_genericKind.relax.andThen fun _ => (moves_typeName name).relax.andThen fun _ =>
    moves_compressed.relax

theorem moves_sizeCount : Moves 0 (sizeCount name) :=
  (moves_type name).relax.andThen fun _ => moves_compressed.relax.andThen fun _ =>
    moves_compressed.relax

theorem moves_lowerBoundCount : Moves 0 (lowerBoundCount name) :=
  (moves_sizeCount name).andThen fun count => (moves_numbers count).andThen fun _ =>
    moves_compressed.relax

theorem declares_arguments :
    Declares (argumentCount name) (typeAfter (total name) (type (total name)) 0x15)
      TypeSig.arguments := by
  refine .of_counted (moves_argumentCount name) (moves_typeAfter name 0x15) fun c t c' hrun => ?_
  obtain ⟨kind, afterKind, hkind, hrun⟩ := exists_of_bind_run hrun
  obtain ⟨n, afterName, hname, hrun⟩ := exists_of_bind_run hrun
  obtain ⟨count, behind, hcount, hrun⟩ := exists_of_bind_run hrun
  obtain ⟨arguments, stop, harguments, hrun⟩ := exists_of_bind_run hrun
  cases hrun
  refine ⟨count, behind, ?_, (moves_type name).vector_counted harguments⟩
  rw [argumentCount, bind_eq_of_ok hkind, bind_eq_of_ok hname, hcount]

theorem exists_of_array {c c' : Cursor} {t : TypeSig ν}
    (hrun : typeAfter (total name) (type (total name)) 0x14 c = .ok t c') :
    ∃ sizeTotal behindSizeCount behindSizes boundTotal behindBoundCount,
      sizeCount name c = .ok sizeTotal behindSizeCount ∧
      vector compressed sizeTotal behindSizeCount = .ok t.sizes behindSizes ∧
      compressed behindSizes = .ok boundTotal behindBoundCount ∧
      vector compressedSigned boundTotal behindBoundCount = .ok t.lowerBounds c' := by
  obtain ⟨element, afterElement, helement, hrun⟩ := exists_of_bind_run hrun
  obtain ⟨rank, afterRank, hrank, hrun⟩ := exists_of_bind_run hrun
  obtain ⟨sizeTotal, behindSizeCount, hsizeTotal, hrun⟩ := exists_of_bind_run hrun
  obtain ⟨sizes, behindSizes, hsizes, hrun⟩ := exists_of_bind_run hrun
  obtain ⟨boundTotal, behindBoundCount, hboundTotal, hrun⟩ := exists_of_bind_run hrun
  obtain ⟨lowerBounds, stop, hlowerBounds, hrun⟩ := exists_of_bind_run hrun
  cases hrun
  refine ⟨sizeTotal, behindSizeCount, behindSizes, boundTotal, behindBoundCount, ?_, hsizes,
    hboundTotal, hlowerBounds⟩
  rw [sizeCount, bind_eq_of_ok helement, bind_eq_of_ok hrank, hsizeTotal]

theorem declares_sizes :
    Declares (sizeCount name) (typeAfter (total name) (type (total name)) 0x14) TypeSig.sizes := by
  refine .of_counted (moves_sizeCount name) (moves_typeAfter name 0x14) fun c t c' hrun => ?_
  obtain ⟨sizeTotal, behind, behindSizes, boundTotal, behindBoundCount, hsizeTotal, hsizes,
    hboundTotal, hlowerBounds⟩ := exists_of_array name hrun
  obtain ⟨hlength, hroom⟩ := moves_compressed.vector_counted hsizes
  have hcount := (moves_compressed.reaches_of_ok hboundTotal).offset_le
  have hbounds := ((moves_signedNumbers boundTotal).reaches_of_ok hlowerBounds).offset_le
  exact ⟨sizeTotal, behind, hsizeTotal, hlength, by omega⟩

theorem declares_lowerBounds :
    Declares (lowerBoundCount name) (typeAfter (total name) (type (total name)) 0x14)
      TypeSig.lowerBounds := by
  refine .of_counted (moves_lowerBoundCount name) (moves_typeAfter name 0x14) fun c t c' hrun => ?_
  obtain ⟨sizeTotal, behindSizeCount, behindSizes, boundTotal, behind, hsizeTotal, hsizes,
    hboundTotal, hlowerBounds⟩ := exists_of_array name hrun
  refine ⟨boundTotal, behind, ?_, moves_compressedSigned.vector_counted hlowerBounds⟩
  rw [lowerBoundCount, bind_eq_of_ok hsizeTotal, bind_eq_of_ok hsizes, hboundTotal]

/-- A type with no modifiers in front is its element byte and what follows it. -/
theorem type_of_element {element : UInt8} (h : ¬ isModifierByte element) (rest : Bytes)
    (offset : Nat) : type (total name) ⟨element :: rest, offset⟩ =
      typeAfter (total name) (type (total name)) element ⟨rest, offset + 1⟩ := by
  rw [type_eq_typeOf, run_typeOf_element _ _ offset (by simpa using h)]
  rfl

end Total

/-! ### Cursors and counts -/

section Laws

variable (name : Token → String)

/-- What holds of a cursor, with a resolver that has a name for every token. -/
structure CursorLaws : Prop where
  /-- After any operations, whichever of them fail, the cursor is within the blob. -/
  within : ∀ blob operations, ∀ c ∈ places name (Cursor.start blob) operations,
    c.IsPlaceOf blob
  /-- No operation takes the cursor back. -/
  forward : ∀ blob operations, (places name (Cursor.start blob) operations).Pairwise
    fun c c' => c.offset ≤ c'.offset
  looking : ∀ c, Operation.atEnd.stop name c = c ∧ Operation.peek.stop name c = c
  typeUses : ∀ c t c', type (total name) c = .ok t c' → c.offset < c'.offset
  parameterUses : ∀ c t c', parameter (total name) c = .ok t c' → c.offset < c'.offset
  /-- Every type inside a type starts further on than that one, also where reading fails. -/
  inside : ∀ c, ∃ calls, AllInside calls ∧ AskingReader.observedType (total name) ([], c) =
    AskingReader.withCalls calls (type (total name) c)
  /-- What is inside a type is read by the same reader. -/
  recursion : ∀ c, type (total name) c = typeOf (total name) (type (total name)) c
  /-- Levels of nesting beyond the number of bytes are not reached: it does not matter what would
      be done there. -/
  termination : ∀ (innermost : Reader (TypeSig String)) levels c, c.rest.length < levels →
    (typeOf (total name))^[levels] innermost c = type (total name) c

/-- What holds of lists with a count. -/
structure CountLaws : Prop where
  numbers : Fills compressed
  signedNumbers : Fills compressedSigned
  types : Fills (type (total name))
  parameters : Fills (parameter (total name))
  methodParameters : Fills (methodParameter (parameter (total name)))
  /-- An ellipsis is not among the parameters that are counted. -/
  method : Declares methodCount (method (total name))
    fun s => s.shownParameters.filter (· ≠ "...")
  property : Declares countBehindMarker (property (total name)) MethodSig.shownParameters
  locals : Declares countBehindMarker (locals (total name)) id
  instantiation : Declares countBehindMarker (instantiation (total name)) id
  /-- The types with a count in them are those with the element bytes `0x15` and `0x14`. -/
  element : ∀ element rest offset, ¬ isModifierByte element →
    type (total name) ⟨element :: rest, offset⟩ =
      typeAfter (total name) (type (total name)) element ⟨rest, offset + 1⟩
  arguments : Declares (argumentCount name)
    (typeAfter (total name) (type (total name)) 0x15) TypeSig.arguments
  sizes : Declares (sizeCount name)
    (typeAfter (total name) (type (total name)) 0x14) TypeSig.sizes
  lowerBounds : Declares (lowerBoundCount name)
    (typeAfter (total name) (type (total name)) 0x14) TypeSig.lowerBounds

/-- **A cursor moves forward within its blob, and lists have as many items as they declare.** -/
theorem cursor_and_counts : CursorLaws name ∧ CountLaws name := by
  have hcursor : CursorLaws name :=
    { within := fun blob operations c hc =>
        (Cursor.isPlaceOf_start blob).reaches (reaches_of_mem_places name hc)
      forward := fun blob operations =>
        (places_pairwise name (Cursor.start blob) operations).imp Cursor.Reaches.offset_le
      looking := fun c => ⟨finalState_atEnd c, finalState_peek c⟩
      typeUses := fun _ _ _ hrun => (moves_type name).uses hrun
      parameterUses := fun _ _ _ hrun => (moves_parameter name).uses hrun
      inside := AskingReader.exists_calls (total name)
      recursion := type_eq_typeOf name
      termination := fun innermost _ _ h => iterate_eq_type name innermost h }
  have hcounts : CountLaws name :=
    { numbers := moves_compressed.fills
      signedNumbers := moves_compressedSigned.fills
      types := (moves_type name).fills
      parameters := (moves_parameter name).fills
      methodParameters := (moves_methodParameter name).fills
      method := declares_method name
      property := declares_property name
      locals := declares_locals name
      instantiation := declares_instantiation name
      element := fun _ rest offset h => type_of_element name h rest offset
      arguments := declares_arguments name
      sizes := declares_sizes name
      lowerBounds := declares_lowerBounds name }
  exact ⟨hcursor, hcounts⟩

end Laws

end Reader

end ILDump
