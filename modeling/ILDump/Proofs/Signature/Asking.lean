import ILDump.Proofs.Outcomes
import ILDump.Signature.Asking

/-!
# What asking readers make of a blob

If all questions are answered from some state as a fixed resolver would answer them, a blob
is read as with that resolver, up to the same place and with the same fault. `Follows` says
so of readers, as long as an invariant of the state holds. Reading goes on in the same way
after each answer, so the law of each production follows from the laws of its parts.
-/

namespace ILDump

/-! ### Readers in sequence -/

namespace AskingReader

variable {σ ν τ α β : Type} {I : σ → Prop}

/-- From any state with the invariant, a reader that asks reads what one that does not ask
    reads, stops where that one stops, and keeps the invariant. -/
def Follows (I : σ → Prop) (r : AskingReader σ α) (q : Reader α) : Prop :=
  ∀ s c, I s → ∃ s', I s' ∧ r (s, c) =
    match q c with
    | .ok a c' => .ok a (s', c')
    | .error e c' => .error e (s', c')

theorem follows_plain (q : Reader α) : Follows I (plain q) q := by
  intro s c hs
  refine ⟨s, hs, ?_⟩
  unfold plain
  cases q c <;> rfl

theorem follows_ask {question : Answering σ α} {x : Except SignatureFault α}
    (h : Gives I question x) : Follows I (ask question) (Reader.lift x) := by
  intro s c hs
  obtain ⟨s', hs', hgives⟩ := h s hs
  refine ⟨s', hs', ?_⟩
  rw [ask, hgives]
  cases x <;> rfl

theorem Follows.pure (a : α) : Follows I (Pure.pure a : AskingReader σ α) (Pure.pure a) :=
  fun s _ hs => ⟨s, hs, rfl⟩

theorem Follows.throw (e : SignatureFault) :
    Follows I (throw e : AskingReader σ α) (throw e) :=
  fun s _ hs => ⟨s, hs, rfl⟩

theorem Follows.bind {r : AskingReader σ α} {q : Reader α} {f : α → AskingReader σ β}
    {g : α → Reader β} (hr : Follows I r q) (hf : ∀ a, Follows I (f a) (g a)) :
    Follows I (r >>= f) (q >>= g) := by
  intro s c hs
  obtain ⟨s', hs', hread⟩ := hr s c hs
  change ∃ s'', I s'' ∧ EStateM.bind r f (s, c) = match EStateM.bind q g c with
    | .ok a c' => .ok a (s'', c')
    | .error e c' => .error e (s'', c')
  rw [EStateM.bind, EStateM.bind, hread]
  cases q c with
  | error e c' => exact ⟨s', hs', rfl⟩
  | ok a c' => exact hf a s' c' hs'

theorem Follows.ite {p : Prop} [Decidable p] {r r' : AskingReader σ α} {q q' : Reader α}
    (hr : Follows I r q) (hr' : Follows I r' q') :
    Follows I (if p then r else r') (if p then q else q') := by
  by_cases hp : p
  · rwa [if_pos hp, if_pos hp]
  · rwa [if_neg hp, if_neg hp]

theorem Follows.map {r : AskingReader σ α} {q : Reader α} (h : Follows I r q) (f : α → β) :
    Follows I (f <$> r) (f <$> q) := by
  rw [map_eq_pure_bind, map_eq_pure_bind]
  exact h.bind fun a => .pure (f a)

theorem Follows.decode {r : AskingReader σ α} {q : Reader α} (h : Follows I r q)
    (blob : Bytes) : Gives I (r.decode blob) (q.decode blob) := by
  intro s hs
  obtain ⟨s', hs', hread⟩ := h s (Cursor.start blob) hs
  refine ⟨s', hs', ?_⟩
  rw [AskingReader.decode, hread, Reader.decode, EStateM.run]
  cases q (Cursor.start blob) <;> rfl

theorem Follows.vector {r : AskingReader σ α} {q : Reader α} (h : Follows I r q) :
    ∀ count, Follows I (AskingReader.vector r count) (Reader.vector q count)
  | 0 => .pure []
  | count + 1 => h.bind fun a => (h.vector count).bind fun as => .pure (a :: as)

/-! ### Productions -/

section Productions

variable {question : Token → Answering σ ν} {resolve : Token → Except SignatureFault ν}
  (h : ∀ token, Gives I (question token) (resolve token))
include h

theorem follows_typeName : Follows I (typeName question) (Reader.typeName resolve) :=
  (follows_plain _).bind fun token => follows_ask (h token)

theorem follows_modifier : Follows I (modifier question) (Reader.modifier resolve) :=
  (follows_plain _).bind fun _ => (follows_typeName h).bind fun _ => .pure _

theorem follows_modifiersWithin :
    ∀ bound, Follows I (modifiersWithin question bound) (Reader.modifiersWithin resolve bound)
  | 0 => .pure []
  | bound + 1 => by
    rw [modifiersWithin, Reader.modifiersWithin]
    refine (follows_plain _).bind fun next => ?_
    cases next with
    | none => exact .pure []
    | some b =>
      refine .ite ?_ (.pure [])
      exact (follows_modifier h).bind fun m =>
        (follows_modifiersWithin bound).bind fun ms => .pure (m :: ms)

theorem follows_modifiers : Follows I (modifiers question) (Reader.modifiers resolve) :=
  (follows_plain _).bind fun bound => follows_modifiersWithin h bound

theorem follows_parameterOf {item : AskingReader σ (TypeSig ν)} {item' : Reader (TypeSig ν)}
    (hitem : Follows I item item') :
    Follows I (parameterOf question item) (Reader.parameterOf resolve item') :=
  (follows_modifiers h).bind fun _ => hitem.bind fun _ => .pure _

omit h in
theorem follows_methodOf {parameter : AskingReader σ τ} {parameter' : Reader τ}
    (hparameter : Follows I parameter parameter') :
    Follows I (methodOf parameter) (Reader.methodOf parameter') := by
  have hparameters : Follows I (methodParameter parameter) (Reader.methodParameter parameter') :=
    (follows_plain _).bind fun _ => hparameter.bind fun _ => .pure _
  refine (follows_plain _).bind fun convention => ?_
  refine .ite (.bind ((follows_plain _).map some) fun _ => ?_) (.bind (.pure none) fun _ => ?_)
  all_goals
    exact (follows_plain _).bind fun count => hparameter.bind fun _ =>
      (hparameters.vector count).bind fun _ => .pure _

/-- By the cases of the element byte. -/
theorem follows_typeAfter {item : AskingReader σ (TypeSig ν)} {item' : Reader (TypeSig ν)}
    (hitem : Follows I item item') (element : UInt8) :
    Follows I (typeAfter question item element) (Reader.typeAfter resolve item' element) := by
  have hname := follows_typeName h
  have hmodifiers := follows_modifiers h
  have hmethod := follows_methodOf (follows_parameterOf h hitem)
  rw [typeAfter, Reader.typeAfter]
  cases Primitive.ofCode? element with
  | some p => exact .pure _
  | none =>
    refine .ite (hname.bind fun _ => .pure _) <| .ite (hname.bind fun _ => .pure _) <|
      .ite ?pointer <| .ite (hitem.bind fun _ => .pure _) <| .ite ?vector <| .ite ?array <|
      .ite ((follows_plain _).bind fun _ => .pure _) <|
      .ite ((follows_plain _).bind fun _ => .pure _) <| .ite ?generic <|
      .ite (hmethod.bind fun _ => .pure _) <| .ite (hitem.bind fun _ => .pure _) ?unknown
    case pointer => exact hmodifiers.bind fun _ => hitem.bind fun _ => .pure _
    case vector => exact hmodifiers.bind fun _ => hitem.bind fun _ => .pure _
    case array =>
      exact hitem.bind fun _ => (follows_plain _).bind fun _ => (follows_plain _).bind fun _ =>
        (follows_plain _).bind fun _ => (follows_plain _).bind fun _ =>
        (follows_plain _).bind fun _ => .pure _
    case generic =>
      exact (follows_plain _).bind fun _ => hname.bind fun _ => (follows_plain _).bind fun count =>
        (hitem.vector count).bind fun _ => .pure _
    case unknown => exact (follows_plain _).bind fun _ => .throw _

theorem follows_typeOf {item : AskingReader σ (TypeSig ν)} {item' : Reader (TypeSig ν)}
    (hitem : Follows I item item') :
    Follows I (typeOf question item) (Reader.typeOf resolve item') := by
  refine (follows_plain _).bind fun next => .ite ?_ ?_
  · exact (follows_modifiers h).bind fun _ => hitem.bind fun _ => .pure _
  · exact (follows_plain _).bind fun element => follows_typeAfter h hitem element

theorem follows_typeWithin :
    ∀ bound, Follows I (typeWithin question bound) (Reader.typeWithin resolve bound)
  | 0 => (follows_plain _).bind fun _ => .throw _
  | bound + 1 => follows_typeOf h (follows_typeWithin bound)

theorem follows_type : Follows I (type question) (Reader.type resolve) :=
  (follows_plain _).bind fun left => follows_typeWithin h (left + 1)

theorem follows_parameter : Follows I (parameter question) (Reader.parameter resolve) :=
  follows_parameterOf h (follows_type h)

theorem follows_method : Follows I (method question) (Reader.method resolve) :=
  follows_methodOf (follows_parameter h)

omit h in
/-- A production that starts with a marker. -/
theorem follows_marked {p : UInt8 → Prop} [DecidablePred p] {fault : UInt8 → SignatureFault}
    {f : UInt8 → AskingReader σ α} {g : UInt8 → Reader α} (hrest : ∀ b, Follows I (f b) (g b)) :
    Follows I (do
      let marker ← plain Reader.byte
      if p marker then throw (fault marker)
      f marker) (do
      let marker ← Reader.byte
      if p marker then throw (fault marker)
      g marker) := by
  refine (follows_plain _).bind fun marker => .ite ?_ (hrest marker)
  exact (Follows.throw _).bind fun _ => hrest marker

theorem follows_field : Follows I (field question) (Reader.field resolve) :=
  follows_marked fun _ => follows_parameter h

theorem follows_property : Follows I (property question) (Reader.property resolve) :=
  follows_marked fun _ => (follows_plain _).bind fun count => (follows_parameter h).bind fun _ =>
    ((follows_parameter h).vector count).bind fun _ => .pure _

theorem follows_locals : Follows I (locals question) (Reader.locals resolve) :=
  follows_marked fun _ => (follows_plain _).bind fun count => (follows_parameter h).vector count

theorem follows_instantiation :
    Follows I (instantiation question) (Reader.instantiation resolve) :=
  follows_marked fun _ => (follows_plain _).bind fun count => (follows_type h).vector count

end Productions

end AskingReader

end ILDump
