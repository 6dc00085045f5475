import ILDump.Proofs.Signature.Integers

/-!
# Reading a signature undoes writing it

Types and method signatures contain each other, so the laws for both, for lists of types
and for lists of parameters are proved together, by recursion on what was written. The
reader is nested as deep as the bytes are long; every type gives its element byte before
anything inside it is read, so the bound is never reached.

A type that may carry custom modifiers is read in two ways: by the reader of types, which
looks ahead for modifiers, and by the reader of parameters, which reads them first. Both
are part of the law.
-/

namespace ILDump

open Encoding

namespace Reader

variable {ν : Type}

/-- A resolver that knows a name for every token. -/
def total (resolve : Token → ν) (t : Token) : Except SignatureFault ν :=
  .ok (resolve t)

variable {β : Type} (resolve : Token → ν)

/-! ### Names and custom modifiers -/

theorem reads_typeName {t : Token} (h : t.IsTypeToken) :
    Reads (typeName (total resolve)) (token t) (resolve t) := by
  have hlift := (reads_token h).bind (f := fun t => lift (total resolve t)) (reads_lift (resolve t))
  rwa [List.append_nil] at hlift

theorem isModifierByte_modifier (required : Bool) :
    isModifierByte (if required then requiredModifierByte else optionalModifierByte) = true := by
  cases required <;> rfl

theorem reads_modifier {m : Modifier Token} (h : m.name.IsTypeToken) :
    Reads (Reader.modifier (total resolve)) (Encoding.modifier m)
      (TypeSig.mapModifier resolve m) := by
  obtain ⟨required, name⟩ := m
  have hrequired : ((if required then requiredModifierByte else optionalModifierByte) ==
      requiredModifierByte) = required := by cases required <;> rfl
  refine Reads.byte_bind ?_
  simp only [hrequired]
  exact (reads_typeName resolve h).bind_pure (Modifier.mk required)

theorem length_le_modifiers (ms : List (Modifier Token)) :
    ms.length ≤ (Encoding.modifiers ms).length := by
  induction ms with
  | nil => simp
  | cons m ms ih =>
    simp only [Encoding.modifiers, List.flatMap_cons, List.length_append, List.length_cons,
      Encoding.modifier] at ih ⊢
    omega

theorem run_peek? (c : Cursor) : peek?.run c = .ok c.rest.head? c := rfl

/-- Modifiers are read up to the first byte that announces none. -/
theorem modifiersWithin_run {ms : List (Modifier Token)} (hms : TypeSig.EncodableModifiers ms)
    {rest : Bytes} (hrest : Starts (isModifierByte · = false) rest) {bound : Nat}
    (hbound : ms.length ≤ bound) (offset : Nat) :
    (modifiersWithin (total resolve) bound).run ⟨Encoding.modifiers ms ++ rest, offset⟩ =
      .ok (ms.map (TypeSig.mapModifier resolve))
        ⟨rest, offset + (Encoding.modifiers ms).length⟩ := by
  induction ms generalizing bound offset with
  | nil =>
    obtain ⟨b, rest, rfl, hb⟩ := hrest
    cases bound with
    | zero => rfl
    | succ bound =>
      simp [modifiersWithin, EStateM.run_bind, run_peek?, Encoding.modifiers, hb]
  | cons m ms ih =>
    obtain ⟨bound, rfl⟩ : ∃ n, bound = n + 1 := ⟨bound - 1, by simp at hbound; omega⟩
    have hm := reads_modifier resolve (hms m (by simp)) (Encoding.modifiers ms ++ rest) offset
    have hrest := ih (fun x hx => hms x (by simp [hx])) (by simpa using hbound)
      (offset + (Encoding.modifier m).length)
    have hhead : (Encoding.modifiers (m :: ms) ++ rest).head? =
        some (if m.required then requiredModifierByte else optionalModifierByte) := by
      simp [Encoding.modifiers, Encoding.modifier]
    simp only [modifiersWithin, EStateM.run_bind, run_peek?, hhead, isModifierByte_modifier,
      if_true]
    have hsplit : Encoding.modifiers (m :: ms) ++ rest =
        Encoding.modifier m ++ (Encoding.modifiers ms ++ rest) := by
      simp [Encoding.modifiers]
    rw [hsplit, hm]
    simp only [hrest, EStateM.run_pure, List.map_cons]
    simp [Encoding.modifiers, Nat.add_assoc]

theorem reads_modifiers_bind {ms : List (Modifier Token)} (hms : TypeSig.EncodableModifiers ms)
    {f : List (Modifier ν) → Reader β} {bs : Bytes} {x : β}
    (hbs : Starts (isModifierByte · = false) bs)
    (hf : Reads (f (ms.map (TypeSig.mapModifier resolve))) bs x) :
    Reads (Reader.modifiers (total resolve) >>= f) (Encoding.modifiers ms ++ bs) x := by
  intro rest offset
  have hbound : ms.length ≤ (Encoding.modifiers ms ++ (bs ++ rest)).length := by
    have := length_le_modifiers ms
    simp only [List.length_append]
    omega
  have hrun := modifiersWithin_run resolve hms (hbs.append rest) hbound offset
  rw [EStateM.run_bind, List.append_assoc]
  have hmodifiers : (Reader.modifiers (total resolve)).run
      ⟨Encoding.modifiers ms ++ (bs ++ rest), offset⟩ = _ := hrun
  rw [hmodifiers]
  simp only [hf rest, List.length_append, Nat.add_assoc]

/-! ### Sentinels -/

theorem reads_sentinel : Reads Reader.sentinel [sentinelByte] true := fun _ _ => rfl

theorem run_sentinel {bs : Bytes} (hbs : Starts (· ≠ sentinelByte) bs) (offset : Nat) :
    Reader.sentinel.run ⟨bs, offset⟩ = .ok false ⟨bs, offset⟩ := by
  obtain ⟨b, rest, rfl, hb⟩ := hbs
  simp [Reader.sentinel, EStateM.run_bind, run_peek?, hb]

theorem reads_methodParameter {item : Reader β} {bs : Bytes} {x : β} (afterSentinel : Bool)
    (hbs : Starts (· ≠ sentinelByte) bs) (hitem : Reads item bs x) :
    Reads (methodParameter item) (Encoding.sentinel afterSentinel ++ bs) ⟨afterSentinel, x⟩ := by
  have htype := hitem.bind_pure (Parameter.mk afterSentinel)
  cases afterSentinel with
  | true => exact reads_sentinel.bind htype
  | false =>
    intro rest offset
    have hrun := run_sentinel (hbs.append rest) offset
    simp only [methodParameter, Encoding.sentinel, EStateM.run_bind, hrun, List.nil_append,
      Bool.false_eq_true, if_false]
    exact htype rest offset

/-! ### The first byte of a type -/

theorem starts_unmodified (t : TypeSig Token) (h : t.IsUnmodified) :
    Starts (fun b => isModifierByte b = false ∧ b ≠ sentinelByte) (Encoding.type t) := by
  cases t with
  | primitive p => exact ⟨p.code, [], by rw [Encoding.type], by cases p <;> decide⟩
  | named k name => exact ⟨kind k, _, by rw [Encoding.type], by cases k <;> decide⟩
  | modified ms t => exact h.elim
  | _ => exact ⟨_, _, by rw [Encoding.type], by decide⟩

theorem isUnmodified_or_modified (t : TypeSig Token) :
    t.IsUnmodified ∨ ∃ ms u, t = .modified ms u := by
  cases t with
  | modified ms u => exact .inr ⟨ms, u, rfl⟩
  | _ => exact .inl trivial

theorem starts_modifiers {ms : List (Modifier Token)} (h : ms ≠ []) :
    Starts (isModifierByte · = true) (Encoding.modifiers ms) := by
  obtain ⟨m, ms, rfl⟩ := List.exists_cons_of_ne_nil h
  exact ⟨_, _, rfl, isModifierByte_modifier m.required⟩

theorem starts_plain (t : TypeSig Token) (h : t.IsUnmodified) :
    Starts (isModifierByte · = false) (Encoding.type t) := by
  obtain ⟨b, rest, hb, hmodifier, _⟩ := starts_unmodified t h
  exact ⟨b, rest, hb, hmodifier⟩

theorem starts_type (t : TypeSig Token) (h : t.Encodable) :
    Starts (· ≠ sentinelByte) (Encoding.type t) := by
  rcases isUnmodified_or_modified t with ht | ⟨ms, u, rfl⟩
  · obtain ⟨b, rest, hb, _, hne⟩ := starts_unmodified t ht
    exact ⟨b, rest, hb, hne⟩
  · rw [TypeSig.Encodable] at h
    obtain ⟨b, rest, hb, hmodifier⟩ := (starts_modifiers h.1).append (Encoding.type u)
    rw [Encoding.type]
    refine ⟨b, rest, hb, ?_⟩
    rintro rfl
    exact absurd hmodifier (by decide)

/-! ### The productions -/

section Productions

variable {item : Reader (TypeSig ν)} {bs : Bytes} {t : TypeSig ν}

theorem reads_primitive (p : Primitive) :
    Reads (typeAfter (total resolve) item p.code) [] (.primitive p) := by
  unfold typeAfter
  rw [Primitive.ofCode?_code]
  exact Reads.pure _

theorem reads_named (k : NamedKind) {name : Token} (h : name.IsTypeToken) :
    Reads (typeAfter (total resolve) item (kind k)) (token name) (.named k (resolve name)) := by
  cases k with
  | reference => exact (reads_typeName resolve h).bind_pure (TypeSig.named .reference)
  | valueType => exact (reads_typeName resolve h).bind_pure (TypeSig.named .valueType)

theorem reads_pointer {ms : List (Modifier Token)} (hms : TypeSig.EncodableModifiers ms)
    (hbs : Starts (isModifierByte · = false) bs) (hitem : Reads item bs t) :
    Reads (typeAfter (total resolve) item 0x0F) (Encoding.modifiers ms ++ bs)
      (.pointer (ms.map (TypeSig.mapModifier resolve)) t) :=
  reads_modifiers_bind resolve hms hbs (hitem.bind_pure (TypeSig.pointer _))

theorem reads_vectorType {ms : List (Modifier Token)} (hms : TypeSig.EncodableModifiers ms)
    (hbs : Starts (isModifierByte · = false) bs) (hitem : Reads item bs t) :
    Reads (typeAfter (total resolve) item 0x1D) (Encoding.modifiers ms ++ bs)
      (.vector (ms.map (TypeSig.mapModifier resolve)) t) :=
  reads_modifiers_bind resolve hms hbs (hitem.bind_pure (TypeSig.vector _))

theorem reads_byRef (hitem : Reads item bs t) :
    Reads (typeAfter (total resolve) item 0x10) bs (.byRef t) :=
  hitem.bind_pure TypeSig.byRef

theorem reads_pinned (hitem : Reads item bs t) :
    Reads (typeAfter (total resolve) item 0x45) bs (.pinned t) :=
  hitem.bind_pure TypeSig.pinned

theorem reads_typeVariable {i : Nat} (h : i < limit) :
    Reads (typeAfter (total resolve) item 0x13) (unsigned i) (.typeVariable i) :=
  (reads_unsigned h).bind_pure TypeSig.typeVariable

theorem reads_methodVariable {i : Nat} (h : i < limit) :
    Reads (typeAfter (total resolve) item 0x1E) (unsigned i) (.methodVariable i) :=
  (reads_unsigned h).bind_pure TypeSig.methodVariable

theorem reads_array {rank : Nat} {sizes : List Nat} {lowerBounds : List Int}
    (hitem : Reads item bs t) (hrank : rank < limit)
    (hsizes : sizes.length < limit ∧ ∀ n ∈ sizes, n < limit)
    (hbounds : lowerBounds.length < limit ∧
      ∀ v ∈ lowerBounds, -0x10000000 ≤ v ∧ v < 0x10000000) :
    Reads (typeAfter (total resolve) item 0x14)
      (bs ++ (unsigned rank ++ (counted unsigned sizes ++ counted signed lowerBounds)))
      (.array t rank sizes lowerBounds) := by
  have hsizeItems := reads_vector sizes fun n hn => reads_unsigned (hsizes.2 n hn)
  have hboundItems := reads_vector lowerBounds fun v hv =>
    reads_signed (hbounds.2 v hv).1 (hbounds.2 v hv).2
  rw [List.map_id'] at hsizeItems hboundItems
  rw [counted, List.append_assoc]
  refine hitem.bind ((reads_unsigned hrank).bind ((reads_unsigned hsizes.1).bind
    (hsizeItems.bind ((reads_unsigned hbounds.1).bind ?_))))
  exact hboundItems.bind_pure (TypeSig.array t rank sizes)

theorem reads_genericKind (k : NamedKind) : Reads genericKind [kind k] k := by
  cases k <;> exact fun _ _ => rfl

theorem reads_generic (k : NamedKind) {name : Token} (h : name.IsTypeToken) {count : Nat}
    (hcount : count < limit) {ts : List (TypeSig ν)} (hitems : Reads (vector item count) bs ts) :
    Reads (typeAfter (total resolve) item 0x15)
      (kind k :: (token name ++ (unsigned count ++ bs))) (.generic k (resolve name) ts) :=
  (reads_genericKind k).bind ((reads_typeName resolve h).bind ((reads_unsigned hcount).bind
    (hitems.bind_pure (TypeSig.generic k (resolve name)))))

theorem reads_function {s : MethodSig (TypeSig ν)}
    (h : Reads (methodOf (parameterOf (total resolve) item)) bs s) :
    Reads (typeAfter (total resolve) item 0x1B) bs (.function s) :=
  h.bind_pure TypeSig.function

/-- The first byte of a method signature holds four facts, each in bits of its own. -/
theorem convention_bits (isGeneric hasThis explicitThis : Bool) : ∀ kind < 16,
    let b := UInt8.ofNat (kind + (if isGeneric then 0x10 else 0) + (if hasThis then 0x20 else 0) +
      (if explicitThis then 0x40 else 0))
    b.toNat.testBit 4 = isGeneric ∧ b.toNat.testBit 5 = hasThis ∧
      b.toNat.testBit 6 = explicitThis ∧ b.toNat % 16 = kind := by
  revert isGeneric hasThis explicitThis
  decide

theorem reads_genericCount_bind {genericCount? : Option Nat}
    (h : ∀ n ∈ genericCount?, n < limit) {f : Option Nat → Reader β} {x : β}
    (hf : Reads (f genericCount?) bs x) :
    Reads (if genericCount?.isSome then (some <$> compressed) >>= f else Pure.pure none >>= f)
      (genericCount?.elim [] unsigned ++ bs) x := by
  cases genericCount? with
  | none => exact hf
  | some n => exact ((reads_unsigned (h n rfl)).map some).bind hf

theorem reads_methodOf {s : MethodSig (TypeSig Token)} {returnType : TypeSig ν}
    {parameters : List (Parameter (TypeSig ν))} {returnBytes parameterBytes : Bytes}
    (hkind : s.kind < 16) (hgeneric : ∀ n ∈ s.genericCount?, n < limit)
    (hcount : s.parameters.length < limit) (hreturn : Reads item returnBytes returnType)
    (hparameters : Reads (vector (methodParameter item) s.parameters.length) parameterBytes
      parameters) :
    Reads (methodOf item)
      (convention s :: (s.genericCount?.elim [] unsigned ++
        (unsigned s.parameters.length ++ (returnBytes ++ parameterBytes))))
      ⟨s.hasThis, s.explicitThis, s.kind, s.genericCount?, returnType, parameters⟩ := by
  obtain ⟨hisGeneric, hhasThis, hexplicitThis, hlow⟩ :=
    convention_bits s.genericCount?.isSome s.hasThis s.explicitThis s.kind hkind
  refine Reads.byte_bind ?_
  simp only [convention, hisGeneric, hhasThis, hexplicitThis, hlow]
  refine reads_genericCount_bind hgeneric ((reads_unsigned hcount).bind (hreturn.bind ?_))
  exact hparameters.bind_pure
    (MethodSig.mk s.hasThis s.explicitThis s.kind s.genericCount? returnType)

end Productions

/-! ### Types and method signatures -/

/-- Whether a reader reads back all types of less than `n` bytes. -/
def ReadsBelow (item : Reader (TypeSig ν)) (n : Nat) : Prop :=
  ∀ t : TypeSig Token, t.Encodable → (Encoding.type t).length < n →
    Reads item (Encoding.type t) (t.mapNames resolve)

variable {item : Reader (TypeSig ν)} {n : Nat}

/-- A parameter is a type, whether its modifiers count as part of it or not. -/
theorem reads_parameterOf (hitem : ReadsBelow resolve item n) {t : TypeSig Token}
    (h : t.Encodable) (hlength : (Encoding.type t).length < n) :
    Reads (parameterOf (total resolve) item) (Encoding.type t) (t.mapNames resolve) := by
  rcases isUnmodified_or_modified t with ht | ⟨ms, u, rfl⟩
  · have hnone : TypeSig.EncodableModifiers [] := by intro m hm; cases hm
    exact reads_modifiers_bind resolve hnone (starts_plain t ht)
      ((hitem t h hlength).bind_pure (modify []))
  · rw [TypeSig.Encodable] at h
    rw [Encoding.type, List.length_append] at hlength
    have hu := hitem u h.2.2.2 (by omega)
    have hmodify : modify (ms.map (TypeSig.mapModifier resolve)) (u.mapNames resolve) =
        .modified (ms.map (TypeSig.mapModifier resolve)) (u.mapNames resolve) := by
      simp [modify, h.1]
    rw [Encoding.type, TypeSig.mapNames, ← hmodify]
    exact reads_modifiers_bind resolve h.2.1 (starts_plain u h.2.2.1) (hu.bind_pure (modify _))

theorem reads_types (hitem : ReadsBelow resolve item n) (ts : List (TypeSig Token))
    (h : TypeSig.EncodableAll ts) (hlength : (Encoding.types ts).length < n) :
    Reads (vector item ts.length) (Encoding.types ts) (TypeSig.mapAll resolve ts) := by
  induction ts with
  | nil =>
    rw [Encoding.types, TypeSig.mapAll]
    exact Reads.pure []
  | cons t ts ih =>
    rw [TypeSig.EncodableAll] at h
    rw [Encoding.types, List.length_append] at hlength
    rw [Encoding.types, TypeSig.mapAll]
    exact (hitem t h.1 (by omega)).bind
      ((ih h.2 (by omega)).bind_pure (t.mapNames resolve :: ·))

theorem reads_parameters (hitem : ReadsBelow resolve item n)
    (ps : List (Parameter (TypeSig Token))) (h : TypeSig.EncodableParameters ps)
    (hlength : (Encoding.parameters ps).length < n) :
    Reads (vector (methodParameter (parameterOf (total resolve) item)) ps.length)
      (Encoding.parameters ps) (TypeSig.mapParameters resolve ps) := by
  induction ps with
  | nil =>
    rw [Encoding.parameters, TypeSig.mapParameters]
    exact Reads.pure []
  | cons p ps ih =>
    obtain ⟨afterSentinel, t⟩ := p
    rw [TypeSig.EncodableParameters] at h
    rw [Encoding.parameters] at hlength
    simp only [List.length_append] at hlength
    have ht := reads_parameterOf resolve hitem h.1 (by omega)
    rw [Encoding.parameters, TypeSig.mapParameters]
    exact (reads_methodParameter afterSentinel (starts_type t h.1) ht).bind
      ((ih h.2 (by omega)).bind_pure (Parameter.mk afterSentinel (t.mapNames resolve) :: ·))

theorem reads_signature (hitem : ReadsBelow resolve item n) {s : MethodSig (TypeSig Token)}
    (h : TypeSig.EncodableSignature s) (hlength : (Encoding.method s).length < n) :
    Reads (methodOf (parameterOf (total resolve) item)) (Encoding.method s)
      (TypeSig.mapSignature resolve s) := by
  obtain ⟨hasThis, explicitThis, kind, genericCount?, returnType, ps⟩ := s
  rw [TypeSig.EncodableSignature] at h
  rw [Encoding.method] at hlength
  simp only [List.length_cons, List.length_append] at hlength
  have hreturn := reads_parameterOf resolve hitem h.2.2.2.1 (by omega)
  have hps := reads_parameters resolve hitem ps h.2.2.2.2 (by omega)
  rw [Encoding.method, TypeSig.mapSignature]
  exact reads_methodOf (s := ⟨hasThis, explicitThis, kind, genericCount?, returnType, ps⟩)
    h.1 h.2.1 h.2.2.1 hreturn hps

theorem reads_typeOf_element {element : UInt8} {bs : Bytes} {t : TypeSig ν}
    (helement : isModifierByte element = false)
    (h : Reads (typeAfter (total resolve) item element) bs t) :
    Reads (typeOf (total resolve) item) (element :: bs) t := by
  intro rest offset
  simp only [typeOf, EStateM.run_bind, run_peek?, List.cons_append, List.head?_cons,
    Option.any_some, helement, Bool.false_eq_true, if_false]
  exact (Reads.byte_bind h) rest offset

theorem reads_typeOf_modifiers {ms : List (Modifier Token)} {t : TypeSig Token} (hms : ms ≠ [])
    (hnames : TypeSig.EncodableModifiers ms) (ht : t.IsUnmodified)
    (h : Reads item (Encoding.type t) (t.mapNames resolve)) :
    Reads (typeOf (total resolve) item) (Encoding.modifiers ms ++ Encoding.type t)
      (.modified (ms.map (TypeSig.mapModifier resolve)) (t.mapNames resolve)) := by
  have hread : Reads
      (Reader.modifiers (total resolve) >>= fun ms => item >>= fun t =>
        Pure.pure (TypeSig.modified ms t))
      (Encoding.modifiers ms ++ Encoding.type t)
      (.modified (ms.map (TypeSig.mapModifier resolve)) (t.mapNames resolve)) :=
    reads_modifiers_bind resolve hnames (starts_plain t ht) (h.bind_pure _)
  intro rest offset
  obtain ⟨b, bs, hb, hmodifier⟩ := (starts_modifiers hms).append (Encoding.type t ++ rest)
  have hhead : (Encoding.modifiers ms ++ Encoding.type t ++ rest).head? = some b := by
    rw [List.append_assoc, hb, List.head?_cons]
  simp only [typeOf, EStateM.run_bind, run_peek?, hhead, Option.any_some, hmodifier, if_true]
  exact hread rest offset

/-- One level of nesting: what is inside a type has fewer bytes than the type. -/
theorem readsBelow_typeOf (hitem : ReadsBelow resolve item n) :
    ReadsBelow resolve (typeOf (total resolve) item) (n + 1) := by
  intro t h hlength
  cases t <;> rw [TypeSig.Encodable] at h <;> rw [Encoding.type, TypeSig.mapNames] <;>
    rw [Encoding.type] at hlength <;>
    simp only [List.length_cons, List.length_append] at hlength
  case primitive p =>
    exact reads_typeOf_element resolve (by cases p <;> rfl) (reads_primitive resolve p)
  case named k name =>
    exact reads_typeOf_element resolve (by cases k <;> rfl) (reads_named resolve k h)
  case pointer ms t =>
    have ht := hitem t h.2.2 (by omega)
    exact reads_typeOf_element resolve rfl
      (reads_pointer resolve h.1 (starts_plain t h.2.1) ht)
  case byRef t =>
    exact reads_typeOf_element resolve rfl (reads_byRef resolve (hitem t h (by omega)))
  case vector ms t =>
    have ht := hitem t h.2.2 (by omega)
    exact reads_typeOf_element resolve rfl
      (reads_vectorType resolve h.1 (starts_plain t h.2.1) ht)
  case array t rank sizes lowerBounds =>
    have ht := hitem t h.1 (by omega)
    exact reads_typeOf_element resolve rfl
      (reads_array resolve ht h.2.1 h.2.2.1 h.2.2.2)
  case typeVariable i => exact reads_typeOf_element resolve rfl (reads_typeVariable resolve h)
  case methodVariable i => exact reads_typeOf_element resolve rfl (reads_methodVariable resolve h)
  case generic k name arguments =>
    have harguments := reads_types resolve hitem arguments h.2.2 (by omega)
    exact reads_typeOf_element resolve rfl (reads_generic resolve k h.1 h.2.1 harguments)
  case function s =>
    exact reads_typeOf_element resolve rfl
      (reads_function resolve (reads_signature resolve hitem h (by omega)))
  case modified ms t =>
    have hpos : 0 < (Encoding.modifiers ms).length :=
      Nat.lt_of_lt_of_le (List.length_pos_iff.mpr h.1) (length_le_modifiers ms)
    exact reads_typeOf_modifiers resolve h.1 h.2.1 h.2.2.1 (hitem t h.2.2.2 (by omega))
  case pinned t =>
    exact reads_typeOf_element resolve rfl (reads_pinned resolve (hitem t h (by omega)))

theorem readsBelow_typeWithin (bound : Nat) :
    ReadsBelow resolve (typeWithin (total resolve) bound) bound := by
  induction bound with
  | zero => exact fun _ _ hlength => absurd hlength (Nat.not_lt_zero _)
  | succ bound ih => exact readsBelow_typeOf resolve ih

/-! ### Whole signatures -/

/-- The bound that the reader of types starts with is large enough. -/
theorem reads_type {t : TypeSig Token} (h : t.Encodable) :
    Reads (Reader.type (total resolve)) (Encoding.type t) (t.mapNames resolve) := by
  intro rest offset
  refine readsBelow_typeWithin resolve _ t h ?_ rest offset
  simp only [List.length_append]
  omega

theorem reads_method {s : MethodSig (TypeSig Token)} (h : TypeSig.EncodableSignature s) :
    Reads (Reader.method (total resolve)) (Encoding.method s) (TypeSig.mapSignature resolve s) :=
  reads_signature resolve (fun _ ht _ => reads_type resolve ht) h (Nat.lt_succ_self _)

/-- **Reading a signature undoes writing it.** From any position of any blob at which a type
    or a method signature is written, the reader succeeds, gives what was written with its
    tokens resolved, and so its text, and stops right behind it. -/
theorem read_written_signature (resolve : Token → String) (before after : Bytes) :
    (∀ t : TypeSig Token, t.Encodable →
      let blob := before ++ (Encoding.type t ++ after)
      let stop := Cursor.within blob (before.length + (Encoding.type t).length)
      (Reader.type (total resolve)).run (Cursor.within blob before.length) =
          .ok (t.mapNames resolve) stop ∧
        (TypeSig.text <$> Reader.type (total resolve)).run (Cursor.within blob before.length) =
          .ok (t.mapNames resolve).text stop) ∧
    (∀ s : MethodSig (TypeSig Token), TypeSig.EncodableSignature s →
      let blob := before ++ (Encoding.method s ++ after)
      let stop := Cursor.within blob (before.length + (Encoding.method s).length)
      (Reader.method (total resolve)).run (Cursor.within blob before.length) =
          .ok (TypeSig.mapSignature resolve s) stop ∧
        (TypeSig.signatureTexts <$> Reader.method (total resolve)).run
            (Cursor.within blob before.length) =
          .ok (TypeSig.signatureTexts (TypeSig.mapSignature resolve s)) stop) := by
  constructor
  · intro t ht
    have hread := reads_type resolve ht
    exact ⟨hread.run_within before after, (hread.map TypeSig.text).run_within before after⟩
  · intro s hs
    have hread := reads_method resolve hs
    exact ⟨hread.run_within before after,
      (hread.map TypeSig.signatureTexts).run_within before after⟩

/-- The signature of a generic method with a variable number of arguments: a modified return
    type, an array with a size and bounds on both sides of zero, a sentinel before a pointer
    to a generic type, and a pinned reference to a function pointer. -/
def sampleSignature : MethodSig (TypeSig Token) where
  hasThis := true
  explicitThis := false
  kind := 5
  genericCount? := some 1
  returnType := .modified [⟨true, Token.ofRow TableNumber.typeRef 1⟩] (.primitive .int32)
  parameters := [
    ⟨false, .array (.named .reference (Token.ofRow TableNumber.typeDef 0xFFFFFF)) 3 [0x80]
      [-0x10000000, 0x40]⟩,
    ⟨true, .pointer [⟨false, Token.ofRow TableNumber.typeSpec 2⟩]
      (.generic .valueType (Token.ofRow TableNumber.typeDef 3) [.typeVariable 0])⟩,
    ⟨false, .pinned (.byRef (.function ⟨false, true, 0, none, .primitive .void, []⟩))⟩]

theorem read_written_signature_sample :
    TypeSig.EncodableSignature sampleSignature ∧
      Encoding.method sampleSignature = [
        0x35, 0x01, 0x03, 0x1F, 0x05, 0x08,
        0x14, 0x12, 0xC3, 0xFF, 0xFF, 0xFC, 0x03, 0x01, 0x80, 0x80, 0x02, 0xC0, 0x00, 0x00, 0x01,
        0x80, 0x80,
        0x41, 0x0F, 0x20, 0x0A, 0x15, 0x11, 0x0C, 0x01, 0x13, 0x00,
        0x45, 0x10, 0x1B, 0x40, 0x00, 0x01] ∧
      (Reader.method (total Token.text)).run
          (Cursor.within ([0x1F] ++ (Encoding.method sampleSignature ++ [0x41])) 1) =
        .ok (TypeSig.mapSignature Token.text sampleSignature) ⟨[0x41], 40⟩ := by
  have hs : TypeSig.EncodableSignature sampleSignature := by
    simp [sampleSignature, TypeSig.EncodableSignature, TypeSig.EncodableParameters,
      TypeSig.Encodable, TypeSig.EncodableAll, TypeSig.EncodableModifiers, TypeSig.IsUnmodified,
      Encoding.limit]
    decide
  exact ⟨hs, by decide, ((read_written_signature Token.text [0x1F] [0x41]).2 _ hs).1⟩

end Reader

end ILDump
