import ILDump.Proofs.Signature.Asking
import ILDump.Proofs.Signature.Progress

/-!
# Types inside types

The reader of types calls itself for every type inside the one it reads. To say where, it is read
here with a list beside the cursor in which each such call is put down: where the type starts that
is being read, and where the one inside it does. What is read is the same with the list and
without it, and the list is kept when reading fails. Each call that is put down starts further on
than the type that it is inside of, since that one has used its element byte, or the bytes of a
modifier, before.
-/

namespace ILDump

/-- A call of the reader of types while it reads a type: where this type starts, and where the
    type inside it does. -/
structure NestedCall where
  enclosing : Nat
  start : Nat
deriving DecidableEq, Repr

/-- Calls that start further on than the type that they are inside of. -/
def AllInside (calls : List NestedCall) : Prop :=
  ∀ call ∈ calls, call.enclosing < call.start

theorem AllInside.concat {calls : List NestedCall} {call : NestedCall} (h : AllInside calls)
    (hcall : call.enclosing < call.start) : AllInside (calls ++ [call]) := by
  intro other hother
  rcases List.mem_append.mp hother with hother | hother
  · exact h other hother
  · rw [List.mem_singleton.mp hother]
    exact hcall

namespace AskingReader

variable {σ ν τ α β : Type} {I : σ → Prop} {floor : Nat}

/-- Asking readers that keep an invariant of their state and use so many bytes if they succeed. -/
abbrev Moves (I : σ → Prop) (k floor : Nat) (r : AskingReader σ α) : Prop :=
  Advances Prod.snd (fun s => I s.1) k floor r

theorem moves_plain {k : Nat} {q : Reader α} (h : Reader.Moves k q) :
    Moves I k floor (plain q) := by
  rintro ⟨s, c⟩ hs -
  have hlands := h c trivial (Nat.zero_le _)
  unfold plain
  cases hrun : q c with
  | error e c' =>
    rw [hrun] at hlands
    exact .error hs hlands.reaches
  | ok a c' =>
    rw [hrun] at hlands
    exact .ok hs hlands.reaches (hlands.uses a c' rfl)

theorem moves_ask {question : Answering σ α} {x : Except SignatureFault α}
    (h : Gives I question x) : Moves I 0 floor (ask question) := by
  rintro ⟨s, c⟩ hs -
  obtain ⟨s', hs', hgives⟩ := h s hs
  rw [ask, hgives]
  cases x with
  | error e => exact .error hs' (.refl c)
  | ok a => exact .ok hs' (.refl c) (Nat.le_refl _)

theorem moves_vector {item : AskingReader σ α} (h : Moves I 0 floor item) :
    ∀ count, Moves I 0 floor (vector item count)
  | 0 => .pure []
  | count + 1 => h.andThen fun a => (moves_vector h count).andThen fun as => .pure (a :: as)

/-! ### Productions -/

section Productions

variable {question : Token → Answering σ ν} {resolve : Token → Except SignatureFault ν}
  (h : ∀ token, Gives I (question token) (resolve token))
include h

theorem moves_typeName : Moves I 0 floor (typeName question) :=
  (moves_plain Reader.moves_typeToken.relax).andThen fun token =>
    moves_ask (h token)

theorem moves_modifier : Moves I 1 floor (modifier question) :=
  (moves_plain Reader.moves_byte).bind fun _ => (moves_typeName h).andThen fun _ => .pure _

theorem moves_modifiersWithin : ∀ bound, Moves I 0 floor (modifiersWithin question bound)
  | 0 => .pure []
  | bound + 1 => by
    refine (moves_plain Reader.moves_peek?).andThen fun next => ?_
    cases next with
    | none => exact .pure []
    | some b =>
      refine .ite ?_ (.pure [])
      exact (moves_modifier h).relax.andThen fun m =>
        (moves_modifiersWithin bound).andThen fun ms => .pure (m :: ms)

theorem moves_modifiers : Moves I 0 floor (modifiers question) :=
  (moves_plain Reader.moves_remaining).andThen fun bound => moves_modifiersWithin h bound

theorem moves_parameterOf {item : AskingReader σ (TypeSig ν)} (hitem : Moves I 0 floor item) :
    Moves I 0 floor (parameterOf question item) :=
  (moves_modifiers h).andThen fun _ => hitem.andThen fun _ => .pure _

omit h in
theorem moves_methodOf {parameter : AskingReader σ τ} (hparameter : Moves I 0 floor parameter) :
    Moves I 0 floor (methodOf parameter) := by
  have hparameters : Moves I 0 floor (methodParameter parameter) :=
    (moves_plain Reader.moves_sentinel).andThen fun _ => hparameter.andThen fun _ => .pure _
  have hbyte : Moves I 0 floor (plain Reader.byte) :=
    (moves_plain Reader.moves_byte).relax
  have hnumber : Moves I 0 floor (plain Reader.compressed) :=
    (moves_plain Reader.moves_compressed).relax
  refine hbyte.andThen fun convention =>
    .ite ((hnumber.map some).andThen fun _ => ?_) (.andThen (.pure none) fun _ => ?_)
  all_goals
    exact hnumber.andThen fun count => hparameter.andThen fun _ =>
      (moves_vector hparameters count).andThen fun _ => .pure _

/-- By the cases of the element byte. -/
theorem moves_typeAfter {item : AskingReader σ (TypeSig ν)} (hitem : Moves I 0 floor item)
    (element : UInt8) : Moves I 0 floor (typeAfter question item element) := by
  have hname : Moves I 0 floor (typeName question) := moves_typeName h
  have hmodifiers : Moves I 0 floor (modifiers question) := moves_modifiers h
  have hnumber : Moves I 0 floor (plain Reader.compressed) :=
    (moves_plain Reader.moves_compressed).relax
  have hmethod := moves_methodOf (moves_parameterOf h hitem)
  rw [typeAfter]
  cases Primitive.ofCode? element with
  | some p => exact .pure _
  | none =>
    refine .ite (hname.andThen fun _ => .pure _) <| .ite (hname.andThen fun _ => .pure _) <|
      .ite ?pointer <| .ite (hitem.andThen fun _ => .pure _) <| .ite ?vector <| .ite ?array <|
      .ite (hnumber.andThen fun _ => .pure _) <| .ite (hnumber.andThen fun _ => .pure _) <|
      .ite ?generic <| .ite (hmethod.andThen fun _ => .pure _) <|
      .ite (hitem.andThen fun _ => .pure _) ?unknown
    case pointer => exact hmodifiers.andThen fun _ => hitem.andThen fun _ => .pure _
    case vector => exact hmodifiers.andThen fun _ => hitem.andThen fun _ => .pure _
    case array =>
      exact hitem.andThen fun _ => hnumber.andThen fun _ => hnumber.andThen fun sizeCount =>
        (moves_plain (Reader.moves_numbers sizeCount)).andThen fun _ =>
        hnumber.andThen fun boundCount =>
        (moves_plain (Reader.moves_signedNumbers boundCount)).andThen fun _ => .pure _
    case generic =>
      have hkind : Moves I 0 floor (plain Reader.genericKind) :=
        (moves_plain Reader.moves_genericKind).relax
      exact hkind.andThen fun _ => hname.andThen fun _ => hnumber.andThen fun count =>
        (moves_vector hitem count).andThen fun _ => .pure _
    case unknown => exact (moves_plain Reader.moves_offset).andThen fun _ => .throw _

end Productions

/-! ### Calls that are put down -/

/-- Answers as a resolver does, with no call to put down. -/
def answer (resolve : Token → Except SignatureFault ν) (token : Token) :
    Answering (List NestedCall) ν :=
  fun calls =>
    match resolve token with
    | .ok name => .ok name calls
    | .error e => .error e calls

def putDown (call : NestedCall) : AskingReader (List NestedCall) Unit :=
  ask fun calls => .ok () (calls ++ [call])

/-- `typeWithin` with each call of itself put down where it is made. -/
def observedWithin (resolve : Token → Except SignatureFault ν) :
    Nat → AskingReader (List NestedCall) (TypeSig ν)
  | 0 => do throw (.truncated (← plain Reader.offset))
  | bound + 1 => do
    let enclosing ← plain Reader.offset
    typeOf (answer resolve) do
      let start ← plain Reader.offset
      putDown ⟨enclosing, start⟩
      observedWithin resolve bound

/-- The reader of types with each call of itself put down. -/
def observedType (resolve : Token → Except SignatureFault ν) :
    AskingReader (List NestedCall) (TypeSig ν) := do
  let left ← plain Reader.remaining
  observedWithin resolve (left + 1)

theorem gives_answer {I : List NestedCall → Prop} (resolve : Token → Except SignatureFault ν)
    (token : Token) : Gives I (answer resolve token) (resolve token) := by
  intro calls hcalls
  refine ⟨calls, hcalls, ?_⟩
  unfold answer
  cases resolve token <;> rfl

/-! ### Putting down changes nothing -/

theorem Follows.after_offset {r : Nat → AskingReader σ α} {q : Reader α}
    (h : ∀ n, Follows I (r n) q) : Follows I (plain Reader.offset >>= r) q :=
  fun s c hs => h c.offset s c hs

theorem Follows.after_putDown {r : AskingReader (List NestedCall) α} {q : Reader α}
    (call : NestedCall) (h : Follows (fun _ => True) r q) :
    Follows (fun _ => True) (putDown call >>= fun _ => r) q :=
  fun calls c _ => h (calls ++ [call]) c trivial

theorem follows_observedWithin (resolve : Token → Except SignatureFault ν) :
    ∀ bound, Follows (fun _ => True) (observedWithin resolve bound)
      (Reader.typeWithin resolve bound)
  | 0 => (follows_plain _).bind fun _ => .throw _
  | bound + 1 => by
    refine .after_offset fun enclosing => follows_typeOf (gives_answer resolve) ?_
    exact .after_offset fun start => .after_putDown _ (follows_observedWithin resolve bound)

theorem follows_observedType (resolve : Token → Except SignatureFault ν) :
    Follows (fun _ => True) (observedType resolve) (Reader.type resolve) :=
  (follows_plain _).bind fun left => follows_observedWithin resolve (left + 1)

/-! ### Where the calls are -/

theorem typeOf_modified {question : Token → Answering σ ν} {item : AskingReader σ (TypeSig ν)}
    {b : UInt8} (h : Reader.isModifierByte b) (s : σ) (rest : Bytes) (offset : Nat) :
    typeOf question item (s, ⟨b :: rest, offset⟩) =
      (modifier question >>= fun m => modifiersWithin question rest.length >>= fun ms =>
        item >>= fun t => return TypeSig.modified (m :: ms) t) (s, ⟨b :: rest, offset⟩) := by
  have hnext : typeOf question item (s, ⟨b :: rest, offset⟩) =
      (if Reader.isModifierByte b then
        modifiers question >>= fun ms => item >>= fun t => return TypeSig.modified ms t
      else plain Reader.byte >>= typeAfter question item) (s, ⟨b :: rest, offset⟩) := rfl
  have hfirst : modifiers question (s, ⟨b :: rest, offset⟩) =
      (if Reader.isModifierByte b then
        modifier question >>= fun m => modifiersWithin question rest.length >>= fun ms =>
          return m :: ms
      else return []) (s, ⟨b :: rest, offset⟩) := rfl
  rw [if_pos h] at hfirst
  rw [hnext, if_pos h, bind_eq_of_eq hfirst]
  simp only [bind_assoc, pure_bind]

theorem typeOf_element {question : Token → Answering σ ν} {item : AskingReader σ (TypeSig ν)}
    {c : Cursor} (h : ¬ c.rest.head?.any Reader.isModifierByte) (s : σ) :
    typeOf question item (s, c) = (plain Reader.byte >>= typeAfter question item) (s, c) := by
  have hnext : typeOf question item (s, c) =
      (if c.rest.head?.any Reader.isModifierByte then
        modifiers question >>= fun ms => item >>= fun t => return TypeSig.modified ms t
      else plain Reader.byte >>= typeAfter question item) (s, c) := rfl
  rw [hnext, if_neg h]

/-- What is inside a type is read behind its element byte, or behind its first modifier. -/
theorem lands_typeOf {question : Token → Answering σ ν}
    {resolve : Token → Except SignatureFault ν}
    (h : ∀ token, Gives I (question token) (resolve token)) {item : AskingReader σ (TypeSig ν)}
    {s : σ} {c : Cursor} (hs : I s) (hitem : Moves I 0 (c.offset + 1) item) :
    Lands Prod.snd (fun s => I s.1) 1 (s, c) (typeOf question item (s, c)) := by
  by_cases hnext : c.rest.head?.any Reader.isModifierByte
  · obtain ⟨_ | ⟨b, rest⟩, offset⟩ := c
    · cases hnext
    rw [typeOf_modified hnext]
    have hread : Moves I 1 offset (modifier question >>= fun m =>
        modifiersWithin question rest.length >>= fun ms =>
          item >>= fun t => return TypeSig.modified (m :: ms) t) :=
      (moves_modifier h).bind fun _ => (moves_modifiersWithin h _).andThen fun _ =>
        hitem.andThen fun _ => .pure _
    exact hread _ hs (Nat.le_refl offset)
  · rw [typeOf_element hnext]
    have hread : Moves I 1 c.offset (plain Reader.byte >>= typeAfter question item) :=
      (moves_plain Reader.moves_byte).bind fun element => moves_typeAfter h hitem element
    exact hread _ hs (Nat.le_refl c.offset)

/-- By induction on the levels: a call inside is put down at a place behind the first byte, and
    what it puts down itself is inside by the induction. -/
theorem moves_observedWithin (resolve : Token → Except SignatureFault ν) :
    ∀ bound, Moves AllInside 0 0 (observedWithin resolve bound)
  | 0 => (moves_plain Reader.moves_offset).andThen fun _ => .throw _
  | bound + 1 => by
    rintro ⟨calls, c⟩ hcalls -
    have hinside : Moves AllInside 0 (c.offset + 1) (do
        let start ← plain Reader.offset
        putDown ⟨c.offset, start⟩
        observedWithin resolve bound) := by
      rintro ⟨calls', c'⟩ hcalls' hplace
      have hcall : AllInside (calls' ++ [⟨c.offset, c'.offset⟩]) := hcalls'.concat hplace
      have hlands := moves_observedWithin resolve bound
        (calls' ++ [⟨c.offset, c'.offset⟩], c') hcall (Nat.zero_le _)
      exact ⟨hlands.keeps, hlands.reaches, hlands.uses⟩
    have hlands := lands_typeOf (gives_answer resolve) hcalls hinside
    refine ⟨hlands.keeps, hlands.reaches, fun t s' hrun => ?_⟩
    exact Nat.le_of_succ_le (hlands.uses t s' hrun)

/-- A result of reading with calls beside the cursor. -/
def withCalls (calls : List NestedCall) :
    EStateM.Result SignatureFault Cursor α →
      EStateM.Result SignatureFault (List NestedCall × Cursor) α
  | .ok a c => .ok a (calls, c)
  | .error e c => .error e (calls, c)

/-- Wherever a type is read, each call put down starts further on than the type that it is inside
    of, and what is read is that which the reader of types reads. -/
theorem exists_calls (resolve : Token → Except SignatureFault ν) (c : Cursor) :
    ∃ calls, AllInside calls ∧
      observedType resolve ([], c) = withCalls calls (Reader.type resolve c) := by
  have hnone : AllInside [] := List.forall_mem_nil _
  obtain ⟨calls, -, hread⟩ := follows_observedType resolve [] c trivial
  have hkeeps := (moves_observedWithin resolve (c.rest.length + 1) ([], c) hnone
    (Nat.zero_le _)).keeps
  have hobserved : observedType resolve ([], c) =
      observedWithin resolve (c.rest.length + 1) ([], c) := rfl
  rw [← hobserved, hread] at hkeeps
  cases hrun : Reader.type resolve c with
  | ok t c' =>
    rw [hrun] at hread hkeeps
    exact ⟨calls, hkeeps, hread⟩
  | error e c' =>
    rw [hrun] at hread hkeeps
    exact ⟨calls, hkeeps, hread⟩

/-- A pointer at offset 0 to an array at offset 1 of numbers at offset 2. -/
example : (finalState (observedType (fun t => .ok t)
    ([], Cursor.start [0x0F, 0x1D, 0x08]))).1 = [⟨0, 1⟩, ⟨1, 2⟩] := by decide

end AskingReader

end ILDump
