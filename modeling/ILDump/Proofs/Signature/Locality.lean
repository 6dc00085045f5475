import ILDump.Proofs.Outcomes
import ILDump.Proofs.Signature.RoundTrip

/-!
# What a reader has used decides what it gives

A reader that looks ahead may let a byte decide that it does not use, and then a longer blob
could be read differently without the difference being seen. Modifiers and the sentinel are
found by looking ahead. But behind both a type is read, which uses the byte that was looked
at, or finds the blob at its end. So each production is decided by the bytes it uses:
`LocalBelow` compares a reader with itself on another blob, and the nesting bounds of the two
runs may differ, since the blobs may.
-/

namespace ILDump.Reader

variable {α β ν : Type}

/-- An outcome at a cursor. -/
def stoppedAt (x : Except SignatureFault α) (c : Cursor) :
    EStateM.Result SignatureFault Cursor α :=
  match x with
  | .ok a => .ok a c
  | .error e => .error e c

/-- An outcome other than that the blob ends too early. -/
def Settled (x : Except SignatureFault α) : Prop :=
  ∀ offset, x ≠ .error (.truncated offset)

/-- How `r` ends on the bytes left: it settles on an outcome, with at least so many bytes used,
    and then `r'` comes to the same on fewer than `n` bytes that begin with the bytes used; or it
    finds the end of the bytes and tells where that is. -/
inductive Ends (least n : Nat) (r r' : Reader α) (rest : Bytes) (offset : Nat) : Prop where
  | settled (x : Except SignatureFault α) (used tail : Bytes) (hx : Settled x)
      (split : rest = used ++ tail) (enough : least ≤ used.length)
      (run : r ⟨rest, offset⟩ = stoppedAt x ⟨tail, offset + used.length⟩)
      (again : ∀ tail', (used ++ tail').length < n →
        r' ⟨used ++ tail', offset⟩ = stoppedAt x ⟨tail', offset + used.length⟩)
  | truncated (run : r ⟨rest, offset⟩ =
      .error (.truncated (offset + rest.length)) ⟨[], offset + rest.length⟩)

/-- On fewer than `n` bytes `r` is decided by the bytes it uses, which are at least so many, and
    so is `r'` on fewer than `l` bytes, in the same way. -/
def LocalBelow (least n l : Nat) (r r' : Reader α) : Prop :=
  ∀ rest offset, rest.length < n → Ends least l r r' rest offset

theorem stoppedAt_inj {x y : Except SignatureFault α} {c d : Cursor}
    (h : stoppedAt x c = stoppedAt y d) : x = y ∧ c = d := by
  cases x <;> cases y <;> cases h <;> exact ⟨rfl, rfl⟩

/-- A reader with a bound that depends on the bytes left is decided by the bytes it uses if with
    every two bounds it is. -/
theorem Ends.of_bounded {k : Nat} {r : Reader α} {rest : Bytes} {offset : Nat}
    (bounded : Nat → Reader α)
    (hr : ∀ bytes, r ⟨bytes, offset⟩ = bounded bytes.length ⟨bytes, offset⟩)
    (h : ∀ n, Ends k (n + 1) (bounded rest.length) (bounded n) rest offset) (n : Nat) :
    Ends k n r r rest offset := by
  cases h 0 with
  | truncated run => exact .truncated ((hr rest).trans run)
  | settled x used tail hx split enough run _ =>
    refine .settled x used tail hx split enough ((hr rest).trans run) fun tail' _ => ?_
    rw [hr]
    cases h (used ++ tail').length with
    | truncated run' =>
      rw [run'] at run
      cases x with
      | ok a => cases run
      | error e => exact absurd (congrArg _ (EStateM.Result.error.inj run).1.symm) (hx _)
    | settled y used' tail'' _ split' _ run' again' =>
      obtain ⟨rfl, hstop⟩ := stoppedAt_inj (run.symm.trans run')
      obtain ⟨rfl, -⟩ := Cursor.mk.inj hstop
      obtain rfl : used = used' := List.append_cancel_right (split.symm.trans split')
      exact again' tail' (Nat.lt_succ_self _)

/-! ### Readers in sequence -/

namespace LocalBelow

variable {k m n l : Nat} {r r' : Reader α} {f f' : α → Reader β}

theorem relax (h : LocalBelow k n l r r') : LocalBelow 0 n l r r' := by
  intro rest offset hrest
  cases h rest offset hrest with
  | settled x used tail hx split _ run again =>
    exact .settled x used tail hx split (Nat.zero_le _) run again
  | truncated run => exact .truncated run

theorem mono {i j : Nat} (h : LocalBelow k n l r r') (hi : i ≤ n) (hj : j ≤ l) :
    LocalBelow k i j r r' := by
  intro rest offset hrest
  cases h rest offset (Nat.lt_of_lt_of_le hrest hi) with
  | settled x used tail hx split enough run again =>
    exact .settled x used tail hx split enough run fun tail' hlt =>
      again tail' (Nat.lt_of_lt_of_le hlt hj)
  | truncated run => exact .truncated run

/-- There is nothing with fewer than no bytes to compare with. -/
theorem below_zero {r'' : Reader α} (h : LocalBelow k n l r r') :
    LocalBelow k n 0 r r'' := by
  intro rest offset hrest
  cases h rest offset hrest with
  | settled x used tail hx split enough run _ =>
    exact .settled x used tail hx split enough run fun _ hlt => absurd hlt (Nat.not_lt_zero _)
  | truncated run => exact .truncated run

theorem pure (a : α) : LocalBelow 0 n l (Pure.pure a : Reader α) (Pure.pure a) :=
  fun rest _ _ => .settled (.ok a) [] rest (fun _ => nofun) rfl (Nat.zero_le _) rfl fun _ _ => rfl

theorem throw {e : SignatureFault} (he : ∀ offset, e ≠ .truncated offset) :
    LocalBelow 0 n l (throw e : Reader α) (throw e) :=
  fun rest _ _ => .settled (.error e) [] rest (fun offset h => he offset (Except.error.inj h)) rfl
    (Nat.zero_le _) rfl fun _ _ => rfl

/-- What comes behind bytes that were used has as many fewer bytes left. -/
theorem bindBelow (h : LocalBelow k n l r r')
    (hf : ∀ a, LocalBelow m (n - k) (l - k) (f a) (f' a)) :
    LocalBelow k n l (r >>= f) (r' >>= f') := by
  intro rest offset hrest
  cases h rest offset hrest with
  | truncated run => exact .truncated (bind_eq_of_error run)
  | settled x used tail hx split enough run again =>
    cases x with
    | error e =>
      refine .settled (.error e) used tail ?_ split enough (bind_eq_of_error run)
        fun tail' hlt => bind_eq_of_error (again tail' hlt)
      exact fun o ho => hx o (congrArg Except.error (Except.error.inj ho))
    | ok a =>
      have hlength : rest.length = used.length + tail.length := by
        rw [split, List.length_append]
      cases hf a tail (offset + used.length) (by omega) with
      | truncated run' =>
        refine .truncated ((bind_eq_of_ok run).trans ?_)
        rw [run', hlength, Nat.add_assoc]
      | settled y used' tail' hy split' _ run' again' =>
        refine .settled y (used ++ used') tail' hy ?_ ?_ ?_ fun tail'' hlt => ?_
        · rw [split, split', List.append_assoc]
        · rw [List.length_append]
          omega
        · rw [List.length_append, ← Nat.add_assoc, ← run']
          exact bind_eq_of_ok run
        · rw [List.append_assoc] at hlt ⊢
          have hlt' : (used' ++ tail'').length < l - k := by
            rw [List.length_append] at hlt
            omega
          rw [List.length_append, ← Nat.add_assoc, ← again' tail'' hlt']
          exact bind_eq_of_ok (again _ hlt)

theorem bind (h : LocalBelow k n l r r') (hf : ∀ a, LocalBelow m n l (f a) (f' a)) :
    LocalBelow k n l (r >>= f) (r' >>= f') :=
  h.bindBelow fun a => (hf a).mono (Nat.sub_le _ _) (Nat.sub_le _ _)

theorem ite {p : Prop} [Decidable p] {q q' : Reader α} (h : LocalBelow k n l r r')
    (hq : LocalBelow k n l q q') :
    LocalBelow k n l (if p then r else q) (if p then r' else q') := by
  by_cases hp : p
  · rwa [if_pos hp, if_pos hp]
  · rwa [if_neg hp, if_neg hp]

theorem map (h : LocalBelow k n l r r') (g : α → β) :
    LocalBelow k n l (g <$> r) (g <$> r') := by
  rw [map_eq_pure_bind, map_eq_pure_bind]
  exact h.bind fun a => .pure (g a)

theorem vector (h : LocalBelow k n l r r') :
    ∀ count, LocalBelow 0 n l (Reader.vector r count) (Reader.vector r' count)
  | 0 => .pure []
  | count + 1 => h.relax.bind fun a =>
      (h.vector count).bind fun as => .pure (a :: as)

end LocalBelow

/-! ### Numbers and names -/

section Plain

variable {n l : Nat}

theorem local_byte : LocalBelow 1 n l byte byte := by
  intro rest offset _
  cases rest with
  | nil => exact .truncated rfl
  | cons b rest =>
    exact .settled (.ok b) [b] rest (fun _ => nofun) rfl (Nat.le_refl 1) rfl fun _ _ => rfl

theorem local_offset : LocalBelow 0 n l offset offset := fun rest o _ =>
  .settled (.ok o) [] rest (fun _ => nofun) rfl (Nat.zero_le _) rfl fun _ _ => rfl

theorem local_lift (a : α) : LocalBelow 0 n l (lift (.ok a)) (lift (.ok a)) := fun rest _ _ =>
  .settled (.ok a) [] rest (fun _ => nofun) rfl (Nat.zero_le _) rfl fun _ _ => rfl

theorem local_compressed : LocalBelow 1 n l compressed compressed := by
  have hbyte : LocalBelow 0 n l byte byte := local_byte.relax
  refine local_byte.bind fun lead => .ite (.pure _) <| .ite ?two <| .ite ?four ?bad
  case two => exact hbyte.bind fun _ => .pure _
  case four => exact hbyte.bind fun _ => hbyte.bind fun _ => hbyte.bind fun _ => .pure _
  case bad => exact .throw fun _ => nofun

/-- The number of bytes read, which says where the sign is, is the same on both sides. -/
theorem local_compressedSigned : LocalBelow 0 n l compressedSigned compressedSigned :=
  local_offset.bind fun _ => local_compressed.relax.bind fun _ =>
    local_offset.bind fun _ => .pure _

theorem local_typeToken : LocalBelow 1 n l typeToken typeToken := by
  refine local_compressed.bind (m := 0) fun coded => ?_
  cases typeTable? (coded % 4) with
  | some table => exact .pure _
  | none => exact .throw fun _ => nofun

variable (name : Token → ν)

theorem local_typeName : LocalBelow 1 n l (typeName (total name)) (typeName (total name)) :=
  local_typeToken.bind fun token => local_lift (name token)

theorem local_modifier : LocalBelow 1 n l (modifier (total name)) (modifier (total name)) :=
  local_byte.bind fun _ => (local_typeName name).relax.bind fun _ => .pure _

end Plain

/-! ### Looking ahead -/

/-- A reader that goes by the next byte is decided by the bytes it uses if, whatever the next
    byte is, it goes on as one that uses a byte: then the byte it went by is among them. -/
theorem Ends.of_head {n : Nat} {r r' q q' : Reader α} {rest : Bytes} {offset : Nat}
    (hr : r ⟨rest, offset⟩ = q ⟨rest, offset⟩)
    (hr' : ∀ rest', rest'.head? = rest.head? → r' ⟨rest', offset⟩ = q' ⟨rest', offset⟩)
    (h : Ends 1 n q q' rest offset) : Ends 1 n r r' rest offset := by
  cases h with
  | truncated run => exact .truncated (hr.trans run)
  | settled x used tail hx split enough run again =>
    refine .settled x used tail hx split enough (hr.trans run) fun tail' hlt => ?_
    rw [hr', again tail' hlt]
    cases used with
    | nil => exact absurd enough (by decide)
    | cons b used =>
      rw [split, List.cons_append, List.cons_append, List.head?_cons, List.head?_cons]

theorem run_sentinel_bind {f : Bool → Reader α} {bytes : Bytes} (offset : Nat)
    (h : bytes.head? = some sentinelByte) :
    (sentinel >>= f) ⟨bytes, offset⟩ = (byte >>= fun _ => f true) ⟨bytes, offset⟩ := by
  obtain ⟨rest, rfl⟩ := List.head?_eq_some_iff.mp h
  rfl

theorem run_no_sentinel_bind {f : Bool → Reader α} {bytes : Bytes} (offset : Nat)
    (h : bytes.head? ≠ some sentinelByte) :
    (sentinel >>= f) ⟨bytes, offset⟩ = f false ⟨bytes, offset⟩ := by
  cases bytes with
  | nil => rfl
  | cons b rest => exact bind_eq_of_ok (run_sentinel ⟨b, rest, rfl, by simpa using h⟩ offset)

theorem LocalBelow.sentinel_bind {n l : Nat} {f f' : Bool → Reader α}
    (h : ∀ b, LocalBelow 1 n l (f b) (f' b)) :
    LocalBelow 1 n l (sentinel >>= f) (sentinel >>= f') := by
  intro rest offset hrest
  by_cases hnext : rest.head? = some sentinelByte
  · refine .of_head (run_sentinel_bind offset hnext)
      (fun rest' hhead => run_sentinel_bind offset (hhead.trans hnext)) ?_
    exact (local_byte.bind fun _ => h true) rest offset hrest
  · refine .of_head (run_no_sentinel_bind offset hnext)
      (fun rest' hhead => run_no_sentinel_bind offset fun heq => hnext (hhead.symm.trans heq)) ?_
    exact h false rest offset hrest

/-! ### Custom modifiers -/

section Modifiers

variable (name : Token → ν)

theorem modifiersWithin_succ (resolve : Token → Except SignatureFault ν) (bound : Nat)
    (c : Cursor) :
    modifiersWithin resolve (bound + 1) c =
      (match c.rest.head? with
      | none => Pure.pure []
      | some b =>
        if isModifierByte b then do
          let m ← modifier resolve
          let ms ← modifiersWithin resolve bound
          return m :: ms
        else Pure.pure [] : Reader (List (Modifier ν))) c :=
  rfl

/-- Every bound that is not less than the bytes left is as good as any other. -/
theorem modifiersWithin_eq : ∀ {bound bound' : Nat} {c : Cursor}, c.rest.length ≤ bound →
    c.rest.length ≤ bound' →
    modifiersWithin (total name) bound c = modifiersWithin (total name) bound' c := by
  intro bound
  induction bound with
  | zero =>
    intro bound' c hbound _
    obtain ⟨rest, offset⟩ := c
    obtain rfl : rest = [] := List.length_eq_zero_iff.mp (Nat.le_zero.mp hbound)
    cases bound' <;> rfl
  | succ bound ih =>
    intro bound' c hbound hbound'
    obtain ⟨rest, offset⟩ := c
    cases rest with
    | nil => cases bound' <;> rfl
    | cons b rest =>
      obtain ⟨bound', rfl⟩ : ∃ m, bound' = m + 1 := ⟨bound' - 1, by simp at hbound'; omega⟩
      rw [modifiersWithin_succ, modifiersWithin_succ]
      simp only [List.head?_cons]
      split
      · cases local_modifier (n := (b :: rest).length + 1) (l := 0) name (b :: rest) offset
          (Nat.lt_succ_self _) with
        | truncated run => rw [bind_eq_of_error run, bind_eq_of_error run]
        | settled x used tail hx hsplit enough run _ =>
          cases x with
          | error e => rw [bind_eq_of_error run, bind_eq_of_error run]
          | ok m =>
            have hlength := congrArg List.length hsplit
            rw [List.length_append, List.length_cons] at hlength
            simp only [List.length_cons] at hbound hbound'
            have hrest : modifiersWithin (total name) bound ⟨tail, offset + used.length⟩ =
                modifiersWithin (total name) bound' ⟨tail, offset + used.length⟩ :=
              ih (by simp only; omega) (by simp only; omega)
            rw [bind_eq_of_ok run, bind_eq_of_ok run, bind_eq_of_eq hrest]
      · rfl

/-- Modifiers end before a byte that announces none, and at the end. -/
theorem run_modifiers_end (resolve : Token → Except SignatureFault ν) {bytes : Bytes}
    (offset : Nat) (h : ¬ bytes.head?.any isModifierByte) :
    modifiers resolve ⟨bytes, offset⟩ = .ok [] ⟨bytes, offset⟩ := by
  cases bytes with
  | nil => rfl
  | cons b rest =>
    have hb : ¬ isModifierByte b := by simpa using h
    change modifiersWithin resolve (rest.length + 1) ⟨b :: rest, offset⟩ = _
    rw [modifiersWithin_succ]
    simp only [List.head?_cons, if_neg hb]
    rfl

/-- Where a modifier is announced it is read, and the others behind it. -/
theorem run_modifiers_more {bytes : Bytes} (offset : Nat) (h : bytes.head?.any isModifierByte) :
    modifiers (total name) ⟨bytes, offset⟩ =
      (do
        let m ← modifier (total name)
        let ms ← modifiers (total name)
        return m :: ms : Reader (List (Modifier ν))) ⟨bytes, offset⟩ := by
  cases bytes with
  | nil => cases h
  | cons b rest =>
    have hb : isModifierByte b := by simpa using h
    change modifiersWithin (total name) (rest.length + 1) ⟨b :: rest, offset⟩ = _
    rw [modifiersWithin_succ]
    simp only [List.head?_cons, if_pos hb]
    cases local_modifier (n := (b :: rest).length + 1) (l := 0) name (b :: rest) offset
      (Nat.lt_succ_self _) with
    | truncated run => rw [bind_eq_of_error run, bind_eq_of_error run]
    | settled x used tail hx hsplit enough run _ =>
      cases x with
      | error e => rw [bind_eq_of_error run, bind_eq_of_error run]
      | ok m =>
        have hlength := congrArg List.length hsplit
        rw [List.length_append, List.length_cons] at hlength
        have hrest : modifiersWithin (total name) rest.length ⟨tail, offset + used.length⟩ =
            modifiers (total name) ⟨tail, offset + used.length⟩ :=
          modifiersWithin_eq name (by simp only; omega) (Nat.le_refl _)
        rw [bind_eq_of_ok run, bind_eq_of_ok run, bind_eq_of_eq hrest]

theorem run_modifiers_bind_more {f : List (Modifier ν) → Reader α} {bytes : Bytes} (offset : Nat)
    (h : bytes.head?.any isModifierByte) :
    (modifiers (total name) >>= f) ⟨bytes, offset⟩ =
      (modifier (total name) >>= fun m => modifiers (total name) >>= fun ms => f (m :: ms))
        ⟨bytes, offset⟩ := by
  rw [bind_eq_of_eq (run_modifiers_more name offset h)]
  simp only [bind_assoc, pure_bind]

variable {n l : Nat}

/-- By recursion on the bytes left. The byte behind the last modifier is used by what comes
    behind the modifiers. -/
theorem ends_modifiers_bind {f f' : List (Modifier ν) → Reader α}
    (hf : ∀ ms, LocalBelow 1 n l (f ms) (f' ms)) (rest : Bytes) (offset : Nat)
    (hrest : rest.length < n) :
    Ends 1 l (modifiers (total name) >>= f) (modifiers (total name) >>= f') rest offset := by
  by_cases hnext : rest.head?.any isModifierByte
  · have hmore (m : Modifier ν) : LocalBelow 1 rest.length l
        (modifiers (total name) >>= fun ms => f (m :: ms))
        (modifiers (total name) >>= fun ms => f' (m :: ms)) := by
      intro left offset' hleft
      exact ends_modifiers_bind (fun ms => hf (m :: ms)) left offset' (Nat.lt_trans hleft hrest)
    have hread := (local_modifier (n := rest.length + 1) (l := l) name).bindBelow fun m =>
      (hmore m).mono (Nat.le_refl _) (Nat.sub_le l 1)
    refine .of_head (run_modifiers_bind_more name offset hnext) (fun rest' hhead => ?_)
      (hread rest offset (Nat.lt_succ_self _))
    rw [run_modifiers_bind_more name offset (hhead ▸ hnext)]
  · have hnone {g : List (Modifier ν) → Reader α} {bytes : Bytes}
        (hend : ¬ bytes.head?.any isModifierByte) :
        (modifiers (total name) >>= g) ⟨bytes, offset⟩ = g [] ⟨bytes, offset⟩ :=
      bind_eq_of_ok (run_modifiers_end _ offset hend)
    refine .of_head (hnone hnext) (fun rest' hhead => ?_) (hf [] rest offset hrest)
    rw [hnone (hhead ▸ hnext)]
termination_by rest.length

theorem LocalBelow.modifiers_bind {f f' : List (Modifier ν) → Reader α}
    (hf : ∀ ms, LocalBelow 1 n l (f ms) (f' ms)) :
    LocalBelow 1 n l (modifiers (total name) >>= f) (modifiers (total name) >>= f') :=
  fun rest offset hrest => ends_modifiers_bind name hf rest offset hrest

end Modifiers

/-! ### Productions -/

section Productions

variable (name : Token → ν) {n l : Nat} {item item' : Reader (TypeSig ν)}
  (hitem : LocalBelow 1 n l item item')

include hitem

theorem local_parameterOf :
    LocalBelow 1 n l (parameterOf (total name) item) (parameterOf (total name) item') :=
  .modifiers_bind name fun _ => hitem.bind fun _ => .pure _

omit hitem in
theorem local_methodOf {τ : Type} {parameter parameter' : Reader τ}
    (hparameter : LocalBelow 1 n l parameter parameter') :
    LocalBelow 1 n l (methodOf parameter) (methodOf parameter') := by
  have hparameters : LocalBelow 1 n l (methodParameter parameter) (methodParameter parameter') :=
    .sentinel_bind fun _ => hparameter.bind fun _ => .pure _
  have hcompressed : LocalBelow 0 n l compressed compressed :=
    local_compressed.relax
  have hreturn : LocalBelow 0 n l parameter parameter' := hparameter.relax
  refine local_byte.bind fun convention => .ite (.bind (m := 0) (hcompressed.map some) fun _ => ?_)
    (.bind (m := 0) (.pure none) fun _ => ?_)
  all_goals
    exact hcompressed.bind fun count => hreturn.bind fun _ =>
      (hparameters.vector count).bind fun _ => .pure _

/-- By the cases of the element byte. -/
theorem local_typeAfter (element : UInt8) :
    LocalBelow 0 n l (typeAfter (total name) item element)
      (typeAfter (total name) item' element) := by
  have hname := (local_typeName (n := n) (l := l) name).relax
  have hcompressed := (local_compressed (n := n) (l := l)).relax
  have hitem₀ := hitem.relax
  have hmodified (f : List (Modifier ν) → TypeSig ν → TypeSig ν) : LocalBelow 0 n l
      (do
        let ms ← modifiers (total name)
        return f ms (← item))
      (do
        let ms ← modifiers (total name)
        return f ms (← item')) :=
    .relax (.modifiers_bind name fun _ => hitem.bind fun _ => .pure _)
  have hmethod := (local_methodOf (local_parameterOf name hitem)).relax
  rw [typeAfter, typeAfter]
  cases Primitive.ofCode? element with
  | some p => exact .pure _
  | none =>
    refine .ite (hname.bind fun _ => .pure _) <| .ite (hname.bind fun _ => .pure _) <|
      .ite (hmodified _) <| .ite (hitem₀.bind fun _ => .pure _) <| .ite (hmodified _) <|
      .ite ?array <| .ite (hcompressed.bind fun _ => .pure _) <|
      .ite (hcompressed.bind fun _ => .pure _) <| .ite ?generic <|
      .ite (hmethod.bind fun _ => .pure _) <| .ite (hitem₀.bind fun _ => .pure _) ?unknown
    case array =>
      exact hitem₀.bind fun _ => hcompressed.bind fun rank => hcompressed.bind fun sizeCount =>
        (hcompressed.vector sizeCount).bind fun _ => hcompressed.bind fun boundCount =>
        (local_compressedSigned.vector boundCount).bind fun _ => .pure _
    case generic =>
      have hkind : LocalBelow 0 n l genericKind genericKind :=
        local_byte.relax.bind fun _ => .pure _
      exact hkind.bind fun _ => hname.bind fun _ => hcompressed.bind fun count =>
        (hitem₀.vector count).bind fun _ => .pure _
    case unknown =>
      exact local_offset.bind fun _ => .throw fun _ => nofun

omit hitem in
theorem run_typeOf_modified (resolve : Token → Except SignatureFault ν)
    (item : Reader (TypeSig ν)) {bytes : Bytes} (offset : Nat)
    (h : bytes.head?.any isModifierByte) :
    typeOf resolve item ⟨bytes, offset⟩ =
      (modifiers resolve >>= fun ms => item >>= fun t => return TypeSig.modified ms t)
        ⟨bytes, offset⟩ := by
  have hnext : typeOf resolve item ⟨bytes, offset⟩ =
      (if bytes.head?.any isModifierByte then
        modifiers resolve >>= fun ms => item >>= fun t => return TypeSig.modified ms t
      else byte >>= typeAfter resolve item) ⟨bytes, offset⟩ := rfl
  rw [hnext, if_pos h]

omit hitem in
theorem run_typeOf_element (resolve : Token → Except SignatureFault ν)
    (item : Reader (TypeSig ν)) {bytes : Bytes} (offset : Nat)
    (h : ¬ bytes.head?.any isModifierByte) :
    typeOf resolve item ⟨bytes, offset⟩ =
      (byte >>= typeAfter resolve item) ⟨bytes, offset⟩ := by
  have hnext : typeOf resolve item ⟨bytes, offset⟩ =
      (if bytes.head?.any isModifierByte then
        modifiers resolve >>= fun ms => item >>= fun t => return TypeSig.modified ms t
      else byte >>= typeAfter resolve item) ⟨bytes, offset⟩ := rfl
  rw [hnext, if_neg h]

/-- One level of nesting: the element byte, or the first byte of a modifier, is used before
    anything inside the type is read. -/
theorem local_typeOf :
    LocalBelow 1 (n + 1) (l + 1) (typeOf (total name) item) (typeOf (total name) item') := by
  intro rest offset hrest
  by_cases hnext : rest.head?.any isModifierByte
  · have hmore {r : Reader (TypeSig ν)} {bytes : Bytes} (hb : bytes.head?.any isModifierByte) :=
      (run_typeOf_modified (total name) r offset hb).trans
        (run_modifiers_bind_more name offset hb)
    have hinside (m : Modifier ν) := LocalBelow.modifiers_bind name fun ms =>
      hitem.bind fun t => .pure (TypeSig.modified (m :: ms) t)
    refine .of_head (hmore hnext) (fun rest' hhead => hmore (hhead ▸ hnext)) ?_
    exact (local_modifier name).bindBelow hinside rest offset hrest
  · refine .of_head (run_typeOf_element _ _ offset hnext)
      (fun rest' hhead => run_typeOf_element _ _ offset (hhead ▸ hnext)) ?_
    have hread := (local_byte (n := n + 1) (l := l + 1)).bindBelow (local_typeAfter name hitem)
    exact hread rest offset hrest

end Productions

/-! ### Types and method signatures -/

section Whole

variable (name : Token → ν) {n l : Nat}

/-- By induction on the nesting bound of the one side. -/
theorem local_typeWithin :
    LocalBelow 1 n l (typeWithin (total name) n) (typeWithin (total name) l) := by
  induction n generalizing l with
  | zero => exact fun _ _ hrest => absurd hrest (Nat.not_lt_zero _)
  | succ n ih =>
    cases l with
    | zero => exact (local_typeOf name (ih (l := 0))).below_zero
    | succ l => exact local_typeOf name ih

theorem local_type : LocalBelow 1 n l (type (total name)) (type (total name)) := by
  intro rest offset _
  refine .of_bounded (fun length => typeWithin (total name) (length + 1)) (fun _ => rfl)
    (fun m => ?_) l
  exact local_typeWithin name rest offset (Nat.lt_succ_self _)

theorem local_parameter :
    LocalBelow 1 n l (parameter (total name)) (parameter (total name)) :=
  local_parameterOf name (local_type name)

theorem local_method : LocalBelow 1 n l (method (total name)) (method (total name)) :=
  local_methodOf (local_parameter name)

end Whole

/-! ### Blobs -/

/-- How a reader goes on blobs that agree with one on the bytes it has used. -/
structure PrefixLocal (r : Reader α) : Prop where
  /-- It gives the same and stops at the same place on every blob that agrees up to there. -/
  success : ∀ (blob : Bytes) start a stop, start ≤ blob.length →
    r.run (Cursor.within blob start) = .ok a stop →
    start ≤ stop.offset ∧ stop.offset ≤ blob.length ∧
      ∀ blob' : Bytes, blob'.take stop.offset = blob.take stop.offset →
        r.run (Cursor.within blob' start) = .ok a (Cursor.within blob' stop.offset)
  /-- It fails in the same way at the same place, unless the blob was too short. -/
  failure : ∀ (blob : Bytes) start e stop, start ≤ blob.length →
    r.run (Cursor.within blob start) = .error e stop → (∀ offset, e ≠ .truncated offset) →
    start ≤ stop.offset ∧ stop.offset ≤ blob.length ∧
      ∀ blob' : Bytes, blob'.take stop.offset = blob.take stop.offset →
        r.run (Cursor.within blob' start) = .error e (Cursor.within blob' stop.offset)
  /-- If the blob was too short, its end is where the reader stopped and what it tells. Where
      more bytes make it succeed, it uses some of them. -/
  truncation : ∀ (blob : Bytes) start offset stop, start ≤ blob.length →
    r.run (Cursor.within blob start) = .error (.truncated offset) stop →
    offset = blob.length ∧ stop.offset = blob.length ∧
      ∀ (more : Bytes) a stop', r.run (Cursor.within (blob ++ more) start) = .ok a stop' →
        blob.length < stop'.offset

section Blobs

variable {k : Nat} {r : Reader α} (h : ∀ n l, LocalBelow k n l r r)
include h

theorem exists_used_of_settled {blob : Bytes} {start : Nat} {x : Except SignatureFault α}
    {stop : Cursor} (hrun : r.run (Cursor.within blob start) = stoppedAt x stop)
    (hx : Settled x) (l : Nat) :
    ∃ used tail, blob.drop start = used ++ tail ∧ stop = ⟨tail, start + used.length⟩ ∧
      ∀ tail', (used ++ tail').length < l →
        r.run ⟨used ++ tail', start⟩ = stoppedAt x ⟨tail', start + used.length⟩ := by
  cases h ((blob.drop start).length + 1) l (blob.drop start) start (Nat.lt_succ_self _) with
  | truncated run =>
    have heq := hrun.symm.trans run
    cases x with
    | ok a => cases heq
    | error e => exact absurd (congrArg _ (EStateM.Result.error.inj heq).1) (hx _)
  | settled y used tail _ split _ run again =>
    obtain ⟨rfl, rfl⟩ := stoppedAt_inj (hrun.symm.trans run)
    exact ⟨used, tail, split, rfl, again⟩

/-- Successes and failures alike. -/
theorem run_within_of_settled {blob : Bytes} {start : Nat} {x : Except SignatureFault α}
    {stop : Cursor} (hstart : start ≤ blob.length)
    (hrun : r.run (Cursor.within blob start) = stoppedAt x stop) (hx : Settled x) :
    start ≤ stop.offset ∧ stop.offset ≤ blob.length ∧
      ∀ blob' : Bytes, blob'.take stop.offset = blob.take stop.offset →
        r.run (Cursor.within blob' start) = stoppedAt x (Cursor.within blob' stop.offset) := by
  obtain ⟨used, tail, hsplit, rfl, -⟩ := exists_used_of_settled h hrun hx 0
  have hlength := congrArg List.length hsplit
  rw [List.length_drop, List.length_append] at hlength
  refine ⟨Nat.le_add_right _ _, by simp only; omega, fun blob' hagree => ?_⟩
  -- the bytes used stand at the same place in the other blob
  have hused : (blob'.drop start).take used.length = used := by
    have hsame := congrArg (List.drop start) hagree
    rw [List.drop_take, List.drop_take, Nat.add_sub_cancel_left, hsplit,
      List.take_left] at hsame
    exact hsame
  have hsplit' : blob'.drop start = used ++ blob'.drop (start + used.length) := by
    calc blob'.drop start
        = (blob'.drop start).take used.length ++ (blob'.drop start).drop used.length :=
          (List.take_append_drop _ _).symm
      _ = used ++ blob'.drop (start + used.length) := by rw [hused, List.drop_drop]
  obtain ⟨used', tail', hsplit'', hstop, hagain⟩ :=
    exists_used_of_settled h hrun hx ((blob'.drop start).length + 1)
  obtain rfl := (Cursor.mk.inj hstop).1
  obtain rfl : used = used' := List.append_cancel_right (hsplit.symm.trans hsplit'')
  rw [Cursor.within, hsplit']
  exact hagain _ (by rw [← hsplit']; exact Nat.lt_succ_self _)

theorem prefixLocal : PrefixLocal r where
  success blob start a stop hstart hrun :=
    run_within_of_settled h (x := .ok a) hstart hrun fun _ => nofun
  failure blob start e stop hstart hrun he :=
    run_within_of_settled h (x := .error e) hstart hrun fun offset heq =>
      he offset (Except.error.inj heq)
  truncation blob start offset stop hstart hrun := by
    have hlength : start + (blob.drop start).length = blob.length := by
      rw [List.length_drop]
      omega
    cases h ((blob.drop start).length + 1) 0 (blob.drop start) start (Nat.lt_succ_self _) with
    | settled x used tail hx _ _ run _ =>
      have heq := hrun.symm.trans run
      cases x with
      | ok a => cases heq
      | error e => exact absurd (congrArg _ (EStateM.Result.error.inj heq).1.symm) (hx _)
    | truncated run =>
      obtain ⟨hoffset, rfl⟩ := EStateM.Result.error.inj (hrun.symm.trans run)
      rw [hlength] at hoffset
      refine ⟨SignatureFault.truncated.inj hoffset, hlength, fun more a stop' hmore => ?_⟩
      -- had it stopped earlier, it would have succeeded without the additional bytes
      by_contra hlt
      have hstart' : start ≤ (blob ++ more).length := by
        rw [List.length_append]
        omega
      have hlocal := run_within_of_settled h (x := .ok a) hstart' hmore fun _ => nofun
      have hagree : blob.take stop'.offset = (blob ++ more).take stop'.offset :=
        (List.take_append_of_le_length (Nat.le_of_not_lt hlt)).symm
      have hok := hlocal.2.2 blob hagree
      rw [hrun] at hok
      cases hok

end Blobs

/-- **What a reader has used decides what it gives.** -/
theorem prefix_locality (name : Token → ν) :
    PrefixLocal compressed ∧ PrefixLocal compressedSigned ∧ PrefixLocal typeToken ∧
      PrefixLocal (type (total name)) ∧ PrefixLocal (parameter (total name)) ∧
      PrefixLocal (method (total name)) :=
  ⟨prefixLocal fun _ _ => local_compressed, prefixLocal fun _ _ => local_compressedSigned,
    prefixLocal fun _ _ => local_typeToken, prefixLocal fun _ _ => local_type name,
    prefixLocal fun _ _ => local_parameter name, prefixLocal fun _ _ => local_method name⟩

end ILDump.Reader
