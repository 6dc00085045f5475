import ILDump.Proofs.Signature.Placement

/-!
# Where custom modifiers stand

A blob that holds a type can be put behind the element byte of another one. References and
pinned types leave what they are made of as it is, so their text is its text with a suffix.
Pointers and arrays take over the custom modifiers in front of it and write them behind
their own suffix. So the suffix follows the text exactly if there are no modifiers in front,
and a pointer to a modified type has the text of a modified pointer to the type.
-/

namespace ILDump

/-! ### Types and the modifiers in front of them -/

namespace TypeSig

variable {ν : Type}

/-- The custom modifiers in front of a type. -/
def frontModifiers : TypeSig ν → List (Modifier ν)
  | modified ms _ => ms
  | _ => []

/-- A type without the custom modifiers in front of it. -/
def behindModifiers : TypeSig ν → TypeSig ν
  | modified _ t => t
  | t => t

theorem IsUnmodified.parts {t : TypeSig ν} (h : t.IsUnmodified) :
    t.frontModifiers = [] ∧ t.behindModifiers = t := by
  cases t with
  | modified ms t => exact h.elim
  | _ => exact ⟨rfl, rfl⟩

theorem text_eq_withModifiers (t : TypeSig String) :
    t.text = withModifiers t.behindModifiers.text t.frontModifiers := by
  cases t with
  | modified ms t => rw [text]; rfl
  | _ => rfl

end TypeSig

theorem getLast?_text_modifier (m : Modifier String) : m.text.toList.getLast? = some ')' := by
  rw [Modifier.text, String.toList_append]
  exact List.getLast?_concat

theorem getLast?_intercalate_modifiers : ∀ {ms : List (Modifier String)}, ms ≠ [] →
    (String.intercalate " " (ms.map Modifier.text)).toList.getLast? = some ')'
  | [m], _ => getLast?_text_modifier m
  | m :: m' :: ms, _ => by
    have hrest := getLast?_intercalate_modifiers (List.cons_ne_nil m' ms)
    rw [List.map_cons] at hrest
    rw [List.map_cons, List.map_cons, String.intercalate_cons_cons, String.toList_append,
      List.getLast?_append, hrest, Option.some_or]

theorem withModifiers_of_ne_nil (text : String) {ms : List (Modifier String)} (h : ms ≠ []) :
    withModifiers text ms = text ++ " " ++ String.intercalate " " (ms.map Modifier.text) := by
  obtain ⟨m, ms, rfl⟩ := List.exists_cons_of_ne_nil h
  rfl

theorem withModifiers_withModifiers (text : String) (ms ms' : List (Modifier String)) :
    withModifiers (withModifiers text ms) ms' = withModifiers text (ms ++ ms') := by
  by_cases hms : ms = []
  · rw [hms, List.nil_append, withModifiers]
  by_cases hms' : ms' = []
  · rw [hms', List.append_nil, withModifiers]
  rw [withModifiers_of_ne_nil _ hms', withModifiers_of_ne_nil _ hms,
    withModifiers_of_ne_nil _ (List.append_ne_nil_of_left_ne_nil hms ms'), List.map_append,
    String.intercalate_append_of_ne_nil (by simpa using hms) (by simpa using hms')]
  simp only [String.append_assoc]

theorem getLast?_withModifiers (text : String) {ms : List (Modifier String)} (h : ms ≠ []) :
    (withModifiers text ms).toList.getLast? = some ')' := by
  rw [withModifiers_of_ne_nil _ h, String.toList_append, List.getLast?_append,
    getLast?_intercalate_modifiers h, Option.some_or]

/-- A suffix that does not end as modifiers do follows them only if there are none. -/
theorem withModifiers_append_eq_iff {text suffix : String} {last : Char}
    (hsuffix : suffix.toList.getLast? = some last) (hlast : last ≠ ')')
    {ms : List (Modifier String)} :
    withModifiers (text ++ suffix) ms = withModifiers text ms ++ suffix ↔ ms = [] := by
  constructor
  · intro heq
    by_contra hms
    have hend := congrArg (fun s => s.toList.getLast?) heq
    simp only [getLast?_withModifiers _ hms, String.toList_append, List.getLast?_append, hsuffix,
      Option.some_or, Option.some_inj] at hend
    exact hlast hend.symm
  · rintro rfl
    rfl

namespace Reader

variable {α β ν : Type}

/-! ### No modifiers behind an element byte -/

/-- Every value that a reader gives has a property. -/
def Yields (p : α → Prop) (r : Reader α) : Prop :=
  ∀ c a stop, r c = .ok a stop → p a

namespace Yields

variable {p : β → Prop}

theorem pure {b : β} (h : p b) : Yields p (Pure.pure b) := by
  intro c b' stop hread
  cases hread
  exact h

theorem bind {r : Reader α} {f : α → Reader β} (hf : ∀ a, Yields p (f a)) :
    Yields p (r >>= f) := by
  intro c b stop hread
  obtain ⟨a, middle, -, hnext⟩ := exists_of_bind_run hread
  exact hf a middle b stop hnext

theorem ite {q : Prop} [Decidable q] {r r' : Reader β} (h : Yields p r) (h' : Yields p r') :
    Yields p (if q then r else r') := by
  by_cases hq : q
  · rwa [if_pos hq]
  · rwa [if_neg hq]

end Yields

variable (resolve : Token → Except SignatureFault ν)

theorem yields_typeAfter (item : Reader (TypeSig ν)) (element : UInt8) :
    Yields TypeSig.IsUnmodified (typeAfter resolve item element) := by
  have hnamed (kind : NamedKind) : Yields TypeSig.IsUnmodified
      (typeName resolve >>= fun name => return TypeSig.named kind name) :=
    .bind fun _ => .pure trivial
  rw [typeAfter]
  cases Primitive.ofCode? element with
  | some p => exact .pure trivial
  | none =>
    refine .ite (hnamed _) <| .ite (hnamed _) <|
      .ite (.bind fun _ => .bind fun _ => .pure trivial) <|
      .ite (.bind fun _ => .pure trivial) <|
      .ite (.bind fun _ => .bind fun _ => .pure trivial) <|
      .ite ?array <| .ite (.bind fun _ => .pure trivial) <| .ite (.bind fun _ => .pure trivial) <|
      .ite ?generic <| .ite (.bind fun _ => .pure trivial) <|
      .ite (.bind fun _ => .pure trivial) ?unknown
    case array =>
      exact .bind fun _ => .bind fun _ => .bind fun _ => .bind fun _ => .bind fun _ =>
        .bind fun _ => .pure trivial
    case generic =>
      exact .bind fun _ => .bind fun _ => .bind fun _ => .bind fun _ => .pure trivial
    case unknown =>
      intro c t stop hread
      cases hread

/-- Where a modifier is announced, at least one is read. -/
theorem modifiers_ne_nil {resolve : Token → Except SignatureFault ν} {bytes : Bytes}
    (hnext : bytes.head?.any isModifierByte) {offset : Nat} {ms : List (Modifier ν)}
    {stop : Cursor} (hread : modifiers resolve ⟨bytes, offset⟩ = .ok ms stop) : ms ≠ [] := by
  obtain ⟨b, rest, rfl⟩ : ∃ b rest, bytes = b :: rest := by
    cases bytes with
    | nil => cases hnext
    | cons b rest => exact ⟨b, rest, rfl⟩
  have hb : isModifierByte b := by simpa using hnext
  change modifiersWithin resolve (rest.length + 1) ⟨b :: rest, offset⟩ = _ at hread
  rw [modifiersWithin_succ] at hread
  simp only [List.head?_cons, if_pos hb] at hread
  obtain ⟨m, middle, -, hread⟩ := exists_of_bind_run hread
  obtain ⟨rest', stop', -, hread⟩ := exists_of_bind_run hread
  cases hread
  exact List.cons_ne_nil _ _

/-! ### Blobs that hold one type -/

/-- Reading one type from the start of a blob gives this type and leaves nothing. -/
def Holds (blob : Bytes) (t : TypeSig ν) : Prop :=
  (type resolve).run (Cursor.start blob) = .ok t ⟨[], blob.length⟩

/-- Reading one type from the start of a blob gives a type with this text and leaves
    nothing. -/
def Shows (resolve : Token → Except SignatureFault String) (blob : Bytes) (text : String) : Prop :=
  ∃ t, Holds resolve blob t ∧ t.text = text

namespace Holds

variable {resolve} {blob : Bytes} {t u : TypeSig ν} (h : Holds resolve blob t)

include h

/-- The type is read as well behind other bytes. -/
theorem run_typeWithin (offset : Nat) :
    typeWithin resolve (blob.length + 1) ⟨blob, offset⟩ = .ok t ⟨[], offset + blob.length⟩ := by
  have hread : typeWithin resolve (blob.length + 1) ⟨blob, 0⟩ = .ok t ⟨[], blob.length⟩ := h
  obtain ⟨count, hcount, hagain⟩ :=
    readsAsWell_typeWithin resolve (Nat.le_refl _) _ _ _ _ _ hread
  rw [Nat.zero_add] at hcount
  have hthere := hagain offset
  rwa [← hcount] at hthere

/-- Modifiers in front are read first, and then the type behind them. -/
theorem run_modifiers (f : List (Modifier ν) → TypeSig ν → TypeSig ν) (offset : Nat) :
    (modifiers resolve >>= fun ms => typeWithin resolve (blob.length + 1) >>= fun u =>
        return f ms u : Reader (TypeSig ν)) ⟨blob, offset⟩ =
      .ok (f t.frontModifiers t.behindModifiers) ⟨[], offset + blob.length⟩ := by
  by_cases hnext : blob.head?.any isModifierByte
  · have hread := h.run_typeWithin 0
    rw [typeWithin, run_typeOf_modified _ _ _ hnext] at hread
    obtain ⟨ms, ⟨rest, place⟩, hms, hread⟩ := exists_of_bind_run hread
    obtain ⟨u, ⟨tail, stop⟩, hu, hread⟩ := exists_of_bind_run hread
    cases hread
    obtain ⟨count, rfl, hmsThere⟩ := readsAsWell_modifiers resolve _ _ _ _ _ hms
    obtain ⟨more, hlength, huThere⟩ :=
      readsAsWell_typeWithin resolve (Nat.le_succ blob.length) _ _ _ _ _ hu
    have hstop : offset + count + more = offset + blob.length := by omega
    rw [bind_eq_of_ok (hmsThere offset), bind_eq_of_ok (huThere _), hstop]
    rfl
  · have hread := h.run_typeWithin 0
    rw [typeWithin, run_typeOf_element _ _ _ hnext] at hread
    obtain ⟨element, middle, -, hread⟩ := exists_of_bind_run hread
    have hunmodified := yields_typeAfter resolve _ element _ _ _ hread
    rw [hunmodified.parts.1, hunmodified.parts.2, bind_eq_of_ok (run_modifiers_end _ _ hnext),
      bind_eq_of_ok (h.run_typeWithin offset)]
    rfl

omit h in
/-- What is read behind an element byte is held by the blob with that byte in front. -/
theorem of_typeAfter {element : UInt8} (helement : isModifierByte element = false)
    (hread : typeAfter resolve (typeWithin resolve (blob.length + 1)) element ⟨blob, 1⟩ =
      .ok u ⟨[], 1 + blob.length⟩) : Holds resolve (element :: blob) u := by
  have hnext : ¬ (element :: blob).head?.any isModifierByte := by
    simp [helement]
  have hrun : (type resolve).run (Cursor.start (element :: blob)) =
      typeAfter resolve (typeWithin resolve (blob.length + 1)) element ⟨blob, 1⟩ :=
    run_typeOf_element resolve _ 0 hnext
  rw [Holds, hrun, hread, List.length_cons, Nat.add_comm]

theorem byRef : Holds resolve (0x10 :: blob) (.byRef t) :=
  of_typeAfter rfl (bind_eq_of_ok (h.run_typeWithin 1))

theorem pinned : Holds resolve (0x45 :: blob) (.pinned t) :=
  of_typeAfter rfl (bind_eq_of_ok (h.run_typeWithin 1))

theorem pointer : Holds resolve (0x0F :: blob) (.pointer t.frontModifiers t.behindModifiers) :=
  of_typeAfter rfl (h.run_modifiers TypeSig.pointer 1)

theorem vector : Holds resolve (0x1D :: blob) (.vector t.frontModifiers t.behindModifiers) :=
  of_typeAfter rfl (h.run_modifiers TypeSig.vector 1)

/-- A type has modifiers in front exactly if its blob starts with one. -/
theorem frontModifiers_eq_nil_iff : t.frontModifiers = [] ↔ ¬ blob.head?.any isModifierByte := by
  have hread : typeOf resolve (typeWithin resolve blob.length) ⟨blob, 0⟩ = .ok t _ := h
  by_cases hnext : blob.head?.any isModifierByte
  · rw [run_typeOf_modified _ _ _ hnext] at hread
    obtain ⟨ms, middle, hms, hread⟩ := exists_of_bind_run hread
    obtain ⟨u, stop, -, hread⟩ := exists_of_bind_run hread
    cases hread
    exact iff_of_false (modifiers_ne_nil hnext hms) (not_not_intro hnext)
  · rw [run_typeOf_element _ _ _ hnext] at hread
    obtain ⟨element, middle, -, hread⟩ := exists_of_bind_run hread
    exact iff_of_true (yields_typeAfter resolve _ element _ _ _ hread).parts.1 hnext

end Holds

/-! ### Texts -/

/-- How the blob of a type is shown behind the element byte of another one. -/
structure SuffixTexts (resolve : Token → Except SignatureFault String) (blob : Bytes)
    (t : TypeSig String) : Prop where
  /-- References and pinned types leave the text as it is. -/
  byRef : Shows resolve (0x10 :: blob) (t.text ++ "&")
  pinned : Shows resolve (0x45 :: blob) (t.text ++ " pinned")
  /-- Pointers and arrays write the modifiers in front of the type behind their suffix. -/
  pointer : Shows resolve (0x0F :: blob)
    (withModifiers (t.behindModifiers.text ++ "*") t.frontModifiers)
  vector : Shows resolve (0x1D :: blob)
    (withModifiers (t.behindModifiers.text ++ "[]") t.frontModifiers)
  /-- So their suffix follows the text exactly if there are none. -/
  pointer_iff : Shows resolve (0x0F :: blob) (t.text ++ "*") ↔
    ¬ blob.head?.any isModifierByte
  vector_iff : Shows resolve (0x1D :: blob) (t.text ++ "[]") ↔
    ¬ blob.head?.any isModifierByte

section Texts

variable {resolve : Token → Except SignatureFault String} {blob : Bytes} {t : TypeSig String}
  (h : Holds resolve blob t)

include h

theorem Holds.shows_iff {text : String} : Shows resolve blob text ↔ t.text = text := by
  constructor
  · rintro ⟨u, hu, rfl⟩
    have heq := h.symm.trans hu
    cases heq
    rfl
  · intro htext
    exact ⟨t, h, htext⟩

/-- The suffix stands in front of the modifiers, so it is last only without them. -/
theorem Holds.shows_suffix_iff {suffix : String} {last : Char} {u : TypeSig String}
    {bytes : Bytes} (hu : Holds resolve bytes u)
    (htext : u.text = withModifiers (t.behindModifiers.text ++ suffix) t.frontModifiers)
    (hsuffix : suffix.toList.getLast? = some last) (hlast : last ≠ ')') :
    Shows resolve bytes (t.text ++ suffix) ↔ ¬ blob.head?.any isModifierByte := by
  rw [hu.shows_iff, htext, t.text_eq_withModifiers, withModifiers_append_eq_iff hsuffix hlast,
    h.frontModifiers_eq_nil_iff]

theorem suffixTexts : SuffixTexts resolve blob t where
  byRef := ⟨_, h.byRef, by rw [TypeSig.text]⟩
  pinned := ⟨_, h.pinned, by rw [TypeSig.text]⟩
  pointer := ⟨_, h.pointer, by rw [TypeSig.text]⟩
  vector := ⟨_, h.vector, by rw [TypeSig.text]⟩
  pointer_iff := h.shows_suffix_iff h.pointer (by rw [TypeSig.text]) rfl (by decide)
  vector_iff := h.shows_suffix_iff h.vector (by rw [TypeSig.text]) rfl (by decide)

end Texts

theorem holds_encoded (resolve : Token → String) {t : TypeSig Token} (ht : t.Encodable) :
    Holds (total resolve) (Encoding.type t) (t.mapNames resolve) :=
  (reads_type resolve ht).run_start

/-- How a pointer is shown whose target has the modifiers `ms'`, with further modifiers `ms` in
    front of the target or in front of the pointer. All of them stand behind the suffix, so
    without `ms'` nothing tells the two pointers apart. -/
structure PointerTexts (name : Token → String) (ms ms' : List (Modifier Token))
    (t : TypeSig Token) : Prop where
  ofTarget : Shows (total name) (Encoding.type (.pointer (ms ++ ms') t))
    (withModifiers ((t.mapNames name).text ++ "*")
      ((ms ++ ms').map (TypeSig.mapModifier name)))
  ofPointer : Shows (total name) (Encoding.type (.modified ms (.pointer ms' t)))
    (withModifiers ((t.mapNames name).text ++ "*")
      ((ms' ++ ms).map (TypeSig.mapModifier name)))

theorem pointerTexts (name : Token → String) {ms ms' : List (Modifier Token)}
    {t : TypeSig Token} (hne : ms ≠ []) (hms : TypeSig.EncodableModifiers ms)
    (hms' : TypeSig.EncodableModifiers ms') (ht : t.IsUnmodified) (henc : t.Encodable) :
    PointerTexts name ms ms' t := by
  have hall : TypeSig.EncodableModifiers (ms ++ ms') := by
    intro m hm
    exact (List.mem_append.mp hm).elim (hms m) (hms' m)
  have hpointer : (TypeSig.pointer (ms ++ ms') t).Encodable := by
    rw [TypeSig.Encodable]
    exact ⟨hall, ht, henc⟩
  have hmodified : (TypeSig.modified ms (TypeSig.pointer ms' t)).Encodable := by
    rw [TypeSig.Encodable, TypeSig.Encodable]
    exact ⟨hne, hms, trivial, hms', ht, henc⟩
  constructor
  · refine ⟨_, holds_encoded name hpointer, ?_⟩
    rw [TypeSig.mapNames, TypeSig.text]
  · refine ⟨_, holds_encoded name hmodified, ?_⟩
    rw [TypeSig.mapNames, TypeSig.mapNames, TypeSig.text, TypeSig.text,
      withModifiers_withModifiers, ← List.map_append]

/-- **A suffix behind a type with custom modifiers.** A reference to a type that a blob holds
    and a pinned one have its text with their suffix; a pointer to it and an array of it do
    exactly if the blob starts with no modifier, and otherwise have their suffix between the
    type and its modifiers. So a pointer to a type with modifiers has the text of a pointer
    with them. -/
theorem suffixes_and_modifiers {resolve : Token → Except SignatureFault String} {blob : Bytes}
    {t : TypeSig String} (h : Holds resolve blob t) :
    SuffixTexts resolve blob t ∧
      ∀ (name : Token → String) (ms ms' : List (Modifier Token)) (u : TypeSig Token), ms ≠ [] →
        TypeSig.EncodableModifiers ms → TypeSig.EncodableModifiers ms' → u.IsUnmodified →
        u.Encodable → PointerTexts name ms ms' u :=
  ⟨suffixTexts h, fun name _ _ _ => pointerTexts name⟩

/-- The blob of an integer behind a modifier that must be understood. -/
def modifiedInteger : Bytes :=
  [0x1F, 0x05, 0x08]

theorem text_modifier_token : Token.text ⟨0x01000001⟩ = "[token 0x01000001]" := by
  decide +kernel

theorem holds_modifiedInteger : Holds (total Token.text) modifiedInteger
    (.modified [⟨true, "[token 0x01000001]"⟩] (.primitive .int32)) := by
  rw [← text_modifier_token]
  rfl

theorem suffixes_and_modifiers_integer :
    SuffixTexts (total Token.text) modifiedInteger
        (.modified [⟨true, "[token 0x01000001]"⟩] (.primitive .int32)) ∧
      Shows (total Token.text) (0x0F :: modifiedInteger) "int32* modreq([token 0x01000001])" ∧
      Shows (total Token.text) [0x1F, 0x05, 0x0F, 0x08] "int32* modreq([token 0x01000001])" := by
  have hmodifiers : TypeSig.EncodableModifiers [⟨true, ⟨0x01000001⟩⟩] := by
    intro m hm
    rw [List.mem_singleton.mp hm]
    decide
  have hnone : TypeSig.EncodableModifiers [] := by
    intro m hm
    cases hm
  have hint32 : (TypeSig.primitive .int32 : TypeSig Token).Encodable := by
    rw [TypeSig.Encodable]
    trivial
  have htext : withModifiers ("int32" ++ "*") [⟨true, Token.text ⟨0x01000001⟩⟩] =
      "int32* modreq([token 0x01000001])" := by
    rw [text_modifier_token]
    decide
  obtain ⟨hsuffix, hpointers⟩ := suffixes_and_modifiers holds_modifiedInteger
  obtain ⟨hofTarget, hofPointer⟩ := hpointers Token.text [⟨true, ⟨0x01000001⟩⟩] []
    (.primitive .int32) (List.cons_ne_nil _ _) hmodifiers hnone trivial hint32
  rw [← htext]
  exact ⟨hsuffix, hofTarget, hofPointer⟩

/-- A pointer to an integer with a modifier does not have the text of the integer with a
    suffix, but the one that a pointer with the modifier has. -/
theorem pointer_to_modifiedInteger :
    Shows (total Token.text) modifiedInteger "int32 modreq([token 0x01000001])" ∧
      ¬ Shows (total Token.text) (0x0F :: modifiedInteger) "int32 modreq([token 0x01000001])*" ∧
      ∀ text, Shows (total Token.text) (0x0F :: modifiedInteger) text ↔
        Shows (total Token.text) [0x1F, 0x05, 0x0F, 0x08] text := by
  have hmodified : Holds (total Token.text) [0x1F, 0x05, 0x0F, 0x08]
      (.modified [⟨true, "[token 0x01000001]"⟩] (.pointer [] (.primitive .int32))) := by
    rw [← text_modifier_token]
    rfl
  refine ⟨holds_modifiedInteger.shows_iff.mpr rfl, ?_, fun text => ?_⟩
  · rw [holds_modifiedInteger.pointer.shows_iff]
    decide
  · rw [holds_modifiedInteger.pointer.shows_iff, hmodified.shows_iff]
    rfl

end Reader

end ILDump
