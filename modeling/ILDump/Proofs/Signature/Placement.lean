import ILDump.Proofs.Signature.Locality

/-!
# Wherever bytes stand

What is read from some bytes does not depend on where they stand: offsets are only told in
faults, and a signed number asks only how many bytes it took. Nor does it depend on how deep
the reader could have nested beyond what the bytes need. So a type that is read by itself is
read in the same way inside another type. `ReadsAsWell` states both at once, for a reader and
one that may nest deeper; it holds whatever the resolver does.
-/

namespace ILDump.Reader

variable {α β ν : Type}

/-- What `r` reads, `r'` reads as well: the same from the same bytes, wherever they stand. -/
def ReadsAsWell (r r' : Reader α) : Prop :=
  ∀ rest offset a tail stop, r ⟨rest, offset⟩ = .ok a ⟨tail, stop⟩ →
    ∃ count, stop = offset + count ∧ ∀ offset', r' ⟨rest, offset'⟩ = .ok a ⟨tail, offset' + count⟩

/-! ### Readers in sequence -/

namespace ReadsAsWell

variable {r r' : Reader α} {f f' : α → Reader β}

theorem pure (a : α) : ReadsAsWell (Pure.pure a) (Pure.pure a) := by
  intro rest offset b tail stop h
  cases h
  exact ⟨0, rfl, fun _ => rfl⟩

theorem throw (e : SignatureFault) : ReadsAsWell (throw e) r' := by
  intro rest offset a tail stop h
  cases h

theorem bind (h : ReadsAsWell r r') (hf : ∀ a, ReadsAsWell (f a) (f' a)) :
    ReadsAsWell (r >>= f) (r' >>= f') := by
  intro rest offset b tail stop hread
  obtain ⟨a, ⟨middle, place⟩, hfirst, hsecond⟩ := exists_of_bind_run hread
  obtain ⟨count, rfl, hagain⟩ := h _ _ _ _ _ hfirst
  obtain ⟨more, rfl, hagain'⟩ := hf a _ _ _ _ _ hsecond
  refine ⟨count + more, Nat.add_assoc _ _ _, fun offset' => ?_⟩
  rw [bind_eq_of_ok (hagain offset'), hagain', Nat.add_assoc]

theorem ite {p : Prop} [Decidable p] {q q' : Reader α} (h : ReadsAsWell r r')
    (hq : ReadsAsWell q q') : ReadsAsWell (if p then r else q) (if p then r' else q') := by
  by_cases hp : p
  · rwa [if_pos hp, if_pos hp]
  · rwa [if_neg hp, if_neg hp]

theorem map (h : ReadsAsWell r r') (g : α → β) : ReadsAsWell (g <$> r) (g <$> r') := by
  rw [map_eq_pure_bind, map_eq_pure_bind]
  exact h.bind fun a => .pure (g a)

theorem vector (h : ReadsAsWell r r') :
    ∀ count, ReadsAsWell (Reader.vector r count) (Reader.vector r' count)
  | 0 => .pure []
  | count + 1 => h.bind fun a => (h.vector count).bind fun as => .pure (a :: as)

end ReadsAsWell

/-! ### Bytes and numbers -/

theorem readsAsWell_byte : ReadsAsWell byte byte := by
  intro rest offset a tail stop h
  cases rest with
  | nil => cases h
  | cons b rest =>
    cases h
    exact ⟨1, rfl, fun _ => rfl⟩

theorem readsAsWell_peek? : ReadsAsWell peek? peek? := by
  intro rest offset a tail stop h
  cases h
  exact ⟨0, rfl, fun _ => rfl⟩

theorem readsAsWell_remaining : ReadsAsWell remaining remaining := by
  intro rest offset a tail stop h
  cases h
  exact ⟨0, rfl, fun _ => rfl⟩

theorem readsAsWell_lift (x : Except SignatureFault α) : ReadsAsWell (lift x) (lift x) := by
  intro rest offset a tail stop h
  cases x with
  | error e => cases h
  | ok a =>
    cases h
    exact ⟨0, rfl, fun _ => rfl⟩

theorem readsAsWell_compressed : ReadsAsWell compressed compressed := by
  refine readsAsWell_byte.bind fun lead => .ite (.pure _) <| .ite ?two <| .ite ?four (.throw _)
  case two => exact readsAsWell_byte.bind fun _ => .pure _
  case four =>
    exact readsAsWell_byte.bind fun _ => readsAsWell_byte.bind fun _ =>
      readsAsWell_byte.bind fun _ => .pure _

/-- A signed number looks at offsets, but only at how far apart they are. -/
theorem readsAsWell_compressedSigned : ReadsAsWell compressedSigned compressedSigned := by
  intro rest offset v tail stop h
  obtain ⟨before, _, hbefore, h⟩ := exists_of_bind_run h
  cases hbefore
  obtain ⟨raw, ⟨middle, place⟩, hraw, h⟩ := exists_of_bind_run h
  obtain ⟨after, _, hafter, h⟩ := exists_of_bind_run h
  cases hafter
  cases h
  obtain ⟨count, rfl, hagain⟩ := readsAsWell_compressed _ _ _ _ _ hraw
  refine ⟨count, rfl, fun offset' => ?_⟩
  have hread : compressedSigned ⟨rest, offset'⟩ =
      .ok (unrotate (compressedBits (offset' + count - offset')) raw) ⟨tail, offset' + count⟩ :=
    bind_eq_of_ok (hagain offset')
  rw [hread, Nat.add_sub_cancel_left, Nat.add_sub_cancel_left]

theorem readsAsWell_typeToken : ReadsAsWell typeToken typeToken := by
  refine readsAsWell_compressed.bind fun coded => ?_
  cases typeTable? (coded % 4) with
  | some table => exact .pure _
  | none => exact .throw _

/-! ### Names and custom modifiers -/

section Productions

variable (resolve : Token → Except SignatureFault ν)

theorem readsAsWell_typeName : ReadsAsWell (typeName resolve) (typeName resolve) :=
  readsAsWell_typeToken.bind fun token => readsAsWell_lift (resolve token)

theorem readsAsWell_modifiersWithin :
    ∀ bound, ReadsAsWell (modifiersWithin resolve bound) (modifiersWithin resolve bound)
  | 0 => .pure []
  | bound + 1 => by
    have hmodifier : ReadsAsWell (modifier resolve) (modifier resolve) :=
      readsAsWell_byte.bind fun _ => (readsAsWell_typeName resolve).bind fun _ => .pure _
    refine readsAsWell_peek?.bind fun next => ?_
    cases next with
    | none => exact .pure []
    | some b =>
      refine .ite ?_ (.pure [])
      exact hmodifier.bind fun m =>
        (readsAsWell_modifiersWithin bound).bind fun ms => .pure (m :: ms)

theorem readsAsWell_modifiers : ReadsAsWell (modifiers resolve) (modifiers resolve) :=
  readsAsWell_remaining.bind fun bound => readsAsWell_modifiersWithin resolve bound

/-! ### Types -/

variable {item item' : Reader (TypeSig ν)} (hitem : ReadsAsWell item item')

include hitem

theorem readsAsWell_parameterOf :
    ReadsAsWell (parameterOf resolve item) (parameterOf resolve item') :=
  (readsAsWell_modifiers resolve).bind fun _ => hitem.bind fun _ => .pure _

omit hitem in
theorem readsAsWell_methodOf {τ : Type} {parameter parameter' : Reader τ}
    (hparameter : ReadsAsWell parameter parameter') :
    ReadsAsWell (methodOf parameter) (methodOf parameter') := by
  have hsentinel : ReadsAsWell sentinel sentinel := by
    refine readsAsWell_peek?.bind fun next => ?_
    cases next with
    | none => exact .pure _
    | some b => exact .ite (readsAsWell_byte.bind fun _ => .pure _) (.pure _)
  have hparameters : ReadsAsWell (methodParameter parameter) (methodParameter parameter') :=
    hsentinel.bind fun _ => hparameter.bind fun _ => .pure _
  refine readsAsWell_byte.bind fun convention =>
    .ite (.bind (readsAsWell_compressed.map some) fun _ => ?_) (.bind (.pure none) fun _ => ?_)
  all_goals
    exact readsAsWell_compressed.bind fun count => hparameter.bind fun _ =>
      (hparameters.vector count).bind fun _ => .pure _

/-- By the cases of the element byte. -/
theorem readsAsWell_typeAfter (element : UInt8) :
    ReadsAsWell (typeAfter resolve item element) (typeAfter resolve item' element) := by
  have hname := readsAsWell_typeName resolve
  have hnumber := readsAsWell_compressed
  have hmodified (f : List (Modifier ν) → TypeSig ν → TypeSig ν) : ReadsAsWell
      (do
        let ms ← modifiers resolve
        return f ms (← item))
      (do
        let ms ← modifiers resolve
        return f ms (← item')) :=
    (readsAsWell_modifiers resolve).bind fun _ => hitem.bind fun _ => .pure _
  rw [typeAfter, typeAfter]
  cases Primitive.ofCode? element with
  | some p => exact .pure _
  | none =>
    refine .ite (hname.bind fun _ => .pure _) <| .ite (hname.bind fun _ => .pure _) <|
      .ite (hmodified _) <| .ite (hitem.bind fun _ => .pure _) <| .ite (hmodified _) <|
      .ite ?array <| .ite (hnumber.bind fun _ => .pure _) <|
      .ite (hnumber.bind fun _ => .pure _) <| .ite ?generic <|
      .ite ?function <| .ite (hitem.bind fun _ => .pure _) ?unknown
    case array =>
      exact hitem.bind fun _ => hnumber.bind fun _ => hnumber.bind fun sizeCount =>
        (hnumber.vector sizeCount).bind fun _ => hnumber.bind fun boundCount =>
        (readsAsWell_compressedSigned.vector boundCount).bind fun _ => .pure _
    case generic =>
      have hkind : ReadsAsWell genericKind genericKind := readsAsWell_byte.bind fun _ => .pure _
      exact hkind.bind fun _ => hname.bind fun _ => hnumber.bind fun count =>
        (hitem.vector count).bind fun _ => .pure _
    case function =>
      exact (readsAsWell_methodOf (readsAsWell_parameterOf resolve hitem)).bind fun _ => .pure _
    case unknown =>
      intro rest offset a tail stop h
      cases h

theorem readsAsWell_typeOf : ReadsAsWell (typeOf resolve item) (typeOf resolve item') := by
  refine readsAsWell_peek?.bind fun next => .ite ?_ ?_
  · exact (readsAsWell_modifiers resolve).bind fun _ => hitem.bind fun _ => .pure _
  · exact readsAsWell_byte.bind fun element => readsAsWell_typeAfter resolve hitem element

omit hitem in
/-- By induction on the smaller bound. -/
theorem readsAsWell_typeWithin {n m : Nat} (h : n ≤ m) :
    ReadsAsWell (typeWithin resolve n) (typeWithin resolve m) := by
  induction n generalizing m with
  | zero =>
    intro rest offset a tail stop hread
    cases hread
  | succ n ih =>
    obtain ⟨m, rfl⟩ : ∃ k, m = k + 1 := ⟨m - 1, by omega⟩
    exact readsAsWell_typeOf resolve (ih (by omega))

end Productions

end ILDump.Reader
