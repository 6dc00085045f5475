import ILDump.Proofs.Signature.Locality
import ILDump.Proofs.Signature.Widths
import Mathlib.Logic.Function.Iterate

/-!
# Readers move forward

A reader never goes back: wherever it stops, also with a fault, it has used a stretch of the bytes
that were left. `Advances` says so of work on a state that holds a cursor, together with an
invariant of the rest of the state and with how many bytes the work uses at least if it succeeds.
What comes second in a sequence starts where the first has stopped, so the bytes add up.

That a type uses a byte before a type inside it is read also bounds how deep types are nested: so
many levels as there are bytes, and one more, are as good as any other number of levels, whatever
stands at the innermost of them.
-/

namespace ILDump

/-! ### Places of one blob -/

namespace Cursor

variable {c c' c'' : Cursor}

/-- A place of the same blob, here or further on. -/
def Reaches (c c' : Cursor) : Prop :=
  ∃ used, c.rest = used ++ c'.rest ∧ c'.offset = c.offset + used.length

theorem Reaches.refl (c : Cursor) : c.Reaches c :=
  ⟨[], rfl, rfl⟩

theorem Reaches.trans (h : c.Reaches c') (h' : c'.Reaches c'') : c.Reaches c'' := by
  obtain ⟨used, hrest, hoffset⟩ := h
  obtain ⟨used', hrest', hoffset'⟩ := h'
  refine ⟨used ++ used', ?_, ?_⟩
  · rw [hrest, hrest', List.append_assoc]
  · rw [hoffset', hoffset, List.length_append, Nat.add_assoc]

theorem Reaches.offset_le (h : c.Reaches c') : c.offset ≤ c'.offset := by
  obtain ⟨used, -, hoffset⟩ := h
  omega

/-- The end of the blob is the same, seen from either place. -/
theorem Reaches.end_eq (h : c.Reaches c') :
    c'.offset + c'.rest.length = c.offset + c.rest.length := by
  obtain ⟨used, hrest, hoffset⟩ := h
  rw [hrest, hoffset, List.length_append, Nat.add_assoc]

/-- A place between the first byte of a blob and its end, with the bytes from there on left. -/
structure IsPlaceOf (c : Cursor) (blob : Bytes) : Prop where
  eq_within : c = within blob c.offset
  offset_le : c.offset ≤ blob.length

theorem isPlaceOf_start (blob : Bytes) : (start blob).IsPlaceOf blob :=
  ⟨rfl, Nat.zero_le _⟩

theorem IsPlaceOf.reaches {blob : Bytes} (h : c.IsPlaceOf blob) (hreaches : c.Reaches c') :
    c'.IsPlaceOf blob := by
  obtain ⟨used, hrest, hoffset⟩ := hreaches
  have hblob : blob.drop c.offset = used ++ c'.rest := by rw [← hrest, h.eq_within, within]
  have hlength := congrArg List.length hblob
  rw [List.length_drop, List.length_append] at hlength
  have hle := h.offset_le
  refine ⟨?_, by omega⟩
  rw [within, hoffset, ← List.drop_drop, hblob, List.drop_left, ← hoffset]

end Cursor

/-! ### Work that moves a cursor -/

/-- The state in which work ended, whether it succeeded or failed. -/
def finalState {ε σ α : Type} : EStateM.Result ε σ α → σ
  | .ok _ s => s
  | .error _ s => s

section Advances

variable {σ α β : Type} {place : σ → Cursor} {I : σ → Prop} {k m floor : Nat} {s s' : σ}

/-- An end further on, with the invariant, and after so many bytes if it is a success. -/
structure Lands (place : σ → Cursor) (I : σ → Prop) (k : Nat) (s : σ)
    (result : EStateM.Result SignatureFault σ α) : Prop where
  keeps : I (finalState result)
  reaches : (place s).Reaches (place (finalState result))
  uses : ∀ a s', result = .ok a s' → (place s).offset + k ≤ (place s').offset

theorem Lands.ok {a : α} (keeps : I s') (reaches : (place s).Reaches (place s'))
    (uses : (place s).offset + k ≤ (place s').offset) :
    Lands place I k s (.ok a s' : EStateM.Result SignatureFault σ α) where
  keeps := keeps
  reaches := reaches
  uses b t hrun := by
    cases hrun
    exact uses

/-- A failure is not asked for bytes. -/
theorem Lands.error {e : SignatureFault} (keeps : I s')
    (reaches : (place s).Reaches (place s')) :
    Lands place I k s (.error e s' : EStateM.Result SignatureFault σ α) where
  keeps := keeps
  reaches := reaches
  uses b t hrun := by cases hrun

/-- Work that moves forward, keeps an invariant and uses so many bytes if it succeeds, from any
    state with the invariant at an offset that is not below `floor`. -/
def Advances (place : σ → Cursor) (I : σ → Prop) (k floor : Nat)
    (work : EStateM SignatureFault σ α) : Prop :=
  ∀ s, I s → floor ≤ (place s).offset → Lands place I k s (work s)

namespace Advances

variable {work work' : EStateM SignatureFault σ α} {next : α → EStateM SignatureFault σ β}

theorem pure (a : α) : Advances place I 0 floor (Pure.pure a : EStateM SignatureFault σ α) :=
  fun _ hs _ => .ok hs (.refl _) (Nat.le_refl _)

theorem throw (e : SignatureFault) :
    Advances place I k floor (throw e : EStateM SignatureFault σ α) :=
  fun _ hs _ => .error hs (.refl _)

theorem mono {l floor' : Nat} (h : Advances place I k floor work) (hl : l ≤ k)
    (hfloor : floor ≤ floor') : Advances place I l floor' work := by
  intro s hs hplace
  have hlands := h s hs (Nat.le_trans hfloor hplace)
  refine ⟨hlands.keeps, hlands.reaches, fun a s' hrun => ?_⟩
  have huses := hlands.uses a s' hrun
  omega

theorem relax (h : Advances place I k floor work) : Advances place I 0 floor work :=
  h.mono (Nat.zero_le k) (Nat.le_refl floor)

/-- The second starts where the first stopped, with its bytes behind it. -/
theorem bind (h : Advances place I k floor work)
    (hnext : ∀ a, Advances place I m (floor + k) (next a)) :
    Advances place I (k + m) floor (work >>= next) := by
  intro s hs hplace
  have hfirst := h s hs hplace
  cases hwork : work s with
  | error e t =>
    rw [hwork] at hfirst
    rw [bind_eq_of_error hwork]
    exact .error hfirst.keeps hfirst.reaches
  | ok a t =>
    rw [hwork] at hfirst
    rw [bind_eq_of_ok hwork]
    have huses := hfirst.uses a t rfl
    have hsecond := hnext a t hfirst.keeps (by omega)
    refine ⟨hsecond.keeps, hfirst.reaches.trans hsecond.reaches, fun b s' hrun => ?_⟩
    have huses' := hsecond.uses b s' hrun
    omega

/-- In sequence, when the bytes do not matter. -/
theorem andThen (h : Advances place I 0 floor work)
    (hnext : ∀ a, Advances place I 0 floor (next a)) : Advances place I 0 floor (work >>= next) :=
  h.bind hnext

theorem ite {p : Prop} [Decidable p] (h : Advances place I k floor work)
    (h' : Advances place I k floor work') :
    Advances place I k floor (if p then work else work') := by
  by_cases hp : p
  · rwa [if_pos hp]
  · rwa [if_neg hp]

theorem map (h : Advances place I 0 floor work) (f : α → β) :
    Advances place I 0 floor (f <$> work) := by
  rw [map_eq_pure_bind]
  exact h.andThen fun a => .pure (f a)

end Advances

end Advances

namespace Reader

variable {α ν : Type} {k : Nat}

/-- Readers that use so many bytes if they succeed. -/
abbrev Moves (k : Nat) (r : Reader α) : Prop :=
  Advances id (fun _ => True) k 0 r

theorem Moves.reaches {r : Reader α} (h : Moves k r) (c : Cursor) : c.Reaches (finalState (r c)) :=
  (h c trivial (Nat.zero_le _)).reaches

theorem Moves.reaches_of_ok {r : Reader α} (h : Moves k r) {c c' : Cursor} {a : α}
    (hrun : r c = .ok a c') : c.Reaches c' := by
  have hreaches := h.reaches c
  rwa [hrun] at hreaches

theorem Moves.uses {r : Reader α} (h : Moves k r) {c c' : Cursor} {a : α}
    (hrun : r c = .ok a c') : c.offset + k ≤ c'.offset :=
  (h c trivial (Nat.zero_le _)).uses a c' hrun

theorem finalState_stoppedAt (x : Except SignatureFault α) (c : Cursor) :
    finalState (stoppedAt x c) = c := by
  cases x <;> rfl

/-- A reader that is decided by the bytes it uses stops behind them. -/
theorem moves_of_local {r : Reader α} (h : ∀ n, LocalBelow k n 0 r r) : Moves k r := by
  rintro ⟨rest, offset⟩ - -
  cases h (rest.length + 1) rest offset (Nat.lt_succ_self _) with
  | settled x used tail _ split enough run _ =>
    refine ⟨trivial, ?_, fun a c' hrun => ?_⟩
    · rw [run, finalState_stoppedAt]
      exact ⟨used, split, rfl⟩
    · have hstop : c' = ⟨tail, offset + used.length⟩ := by
        rw [← finalState_stoppedAt x ⟨tail, offset + used.length⟩, ← run, hrun]
        rfl
      rw [hstop]
      exact Nat.add_le_add_left enough offset
  | truncated run =>
    refine ⟨trivial, ?_, fun a c' hrun => ?_⟩
    · rw [run]
      exact ⟨rest, (List.append_nil rest).symm, rfl⟩
    · rw [run] at hrun
      cases hrun

/-- A reader that only looks. -/
theorem moves_of_still {r : Reader α} (h : ∀ c, finalState (r c) = c) : Moves 0 r := by
  intro c _ _
  refine ⟨trivial, ?_, fun a c' hrun => ?_⟩
  · rw [h]
    exact .refl c
  · have hstill := h c
    rw [hrun] at hstill
    rw [← hstill]
    exact Nat.le_refl _

theorem finalState_atEnd (c : Cursor) : finalState (atEnd c) = c := rfl

theorem finalState_peek (c : Cursor) : finalState (peek c) = c := by
  obtain ⟨rest, offset⟩ := c
  cases rest <;> rfl

theorem moves_peek? : Moves 0 peek? :=
  moves_of_still fun _ => rfl

theorem moves_offset : Moves 0 offset :=
  moves_of_still fun _ => rfl

theorem moves_remaining : Moves 0 remaining :=
  moves_of_still fun _ => rfl

theorem moves_byte : Moves 1 byte :=
  moves_of_local fun _ => local_byte

theorem moves_compressed : Moves 1 compressed :=
  moves_of_local fun _ => local_compressed

theorem moves_compressedSigned : Moves 1 compressedSigned :=
  moves_offset.bind fun _ => moves_compressed.bind fun _ =>
    (moves_offset.mono (Nat.le_refl 0) (Nat.zero_le _)).bind fun _ => .pure _

theorem Moves.vector {item : Reader α} (h : Moves 0 item) :
    ∀ count, Moves 0 (vector item count)
  | 0 => .pure []
  | count + 1 => h.andThen fun a => (h.vector count).andThen fun as => .pure (a :: as)

theorem moves_numbers (count : Nat) : Moves 0 (vector compressed count) :=
  Moves.vector moves_compressed.relax count

theorem moves_signedNumbers (count : Nat) : Moves 0 (vector compressedSigned count) :=
  Moves.vector moves_compressedSigned.relax count

theorem moves_typeToken : Moves 1 typeToken :=
  moves_of_local fun _ => local_typeToken

theorem moves_genericKind : Moves 1 genericKind :=
  moves_byte.bind fun _ => .pure _

theorem moves_sentinel : Moves 0 sentinel := by
  refine moves_peek?.andThen fun next => ?_
  cases next with
  | none => exact .pure _
  | some b =>
    refine .ite ?_ (.pure _)
    exact moves_byte.relax.andThen fun _ => .pure _

section Total

variable (name : Token → ν)

theorem moves_typeName : Moves 1 (typeName (total name)) :=
  moves_of_local fun _ => local_typeName name

theorem moves_modifiers : Moves 0 (modifiers (total name)) := by
  have hmodifier : Moves 0 (modifier (total name)) :=
    moves_of_local fun _ => (local_modifier name).relax
  have hwithin : ∀ bound, Moves 0 (modifiersWithin (total name) bound) := by
    intro bound
    induction bound with
    | zero => exact .pure []
    | succ bound ih =>
      refine moves_peek?.andThen fun next => ?_
      cases next with
      | none => exact .pure []
      | some b => exact .ite (hmodifier.andThen fun m => ih.andThen fun ms => .pure _) (.pure [])
  exact moves_remaining.andThen hwithin

theorem moves_type : Moves 1 (type (total name)) :=
  moves_of_local fun _ => local_type name

theorem moves_parameter : Moves 1 (parameter (total name)) :=
  moves_of_local fun _ => local_parameter name

/-- A parameter of a method, with the sentinel that may stand before it. -/
theorem moves_methodParameter : Moves 1 (methodParameter (parameter (total name))) :=
  moves_of_local fun _ => .sentinel_bind fun _ => (local_parameter name).bind fun _ => .pure _

theorem moves_method : Moves 1 (method (total name)) :=
  moves_of_local fun _ => local_method name

theorem moves_typeAfter (element : UInt8) :
    Moves 0 (typeAfter (total name) (type (total name)) element) :=
  moves_of_local fun _ => local_typeAfter name (local_type name) element

end Total

/-! ### Operations one after the other -/

/-- What can be read from a cursor. -/
inductive Operation where
  | atEnd
  | byte
  | peek
  | compressed
  | compressedSigned
  | typeToken
  | modifiers
  | type
  /-- An array behind its element byte. -/
  | array
  | parameter
  | method
deriving DecidableEq, Repr

/-- Where an operation stops, whether it succeeds or fails. -/
def Operation.stop (name : Token → ν) (c : Cursor) : Operation → Cursor
  | atEnd => finalState (Reader.atEnd c)
  | byte => finalState (Reader.byte c)
  | peek => finalState (Reader.peek c)
  | compressed => finalState (Reader.compressed c)
  | compressedSigned => finalState (Reader.compressedSigned c)
  | typeToken => finalState (Reader.typeToken c)
  | modifiers => finalState (Reader.modifiers (total name) c)
  | type => finalState (Reader.type (total name) c)
  | array => finalState (typeAfter (total name) (Reader.type (total name)) 0x14 c)
  | parameter => finalState (Reader.parameter (total name) c)
  | method => finalState (Reader.method (total name) c)

theorem Operation.reaches_stop (name : Token → ν) (c : Cursor) (operation : Operation) :
    c.Reaches (operation.stop name c) := by
  cases operation with
  | atEnd => exact .refl c
  | byte => exact moves_byte.reaches c
  | peek => exact (moves_of_still finalState_peek).reaches c
  | compressed => exact moves_compressed.reaches c
  | compressedSigned => exact moves_compressedSigned.reaches c
  | typeToken => exact moves_typeToken.reaches c
  | modifiers => exact (moves_modifiers name).reaches c
  | type => exact (moves_type name).reaches c
  | array => exact (moves_typeAfter name 0x14).reaches c
  | parameter => exact (moves_parameter name).reaches c
  | method => exact (moves_method name).reaches c

/-- The places of a cursor before, between and after operations. -/
def places (name : Token → ν) : Cursor → List Operation → List Cursor
  | c, [] => [c]
  | c, operation :: operations => c :: places name (operation.stop name c) operations

/-- By induction on the operations: each starts where the one before has stopped. -/
theorem reaches_of_mem_places (name : Token → ν) {c c' : Cursor} {operations : List Operation}
    (h : c' ∈ places name c operations) : c.Reaches c' := by
  induction operations generalizing c with
  | nil =>
    rw [places, List.mem_singleton] at h
    rw [h]
    exact .refl c
  | cons operation operations ih =>
    rw [places, List.mem_cons] at h
    rcases h with rfl | h
    · exact .refl _
    · exact (operation.reaches_stop name c).trans (ih h)

theorem places_pairwise (name : Token → ν) (c : Cursor) (operations : List Operation) :
    (places name c operations).Pairwise Cursor.Reaches := by
  induction operations generalizing c with
  | nil => exact List.pairwise_singleton _ _
  | cons operation operations ih =>
    refine List.pairwise_cons.mpr ⟨fun c' hc' => ?_, ih _⟩
    exact (operation.reaches_stop name c).trans (reaches_of_mem_places name hc')

/-! ### How deep types are nested -/

/-- Two readers each of which is decided by what the other uses. -/
theorem eq_of_local {m n l : Nat} {r r' : Reader α} (h : LocalBelow k n l r r')
    (h' : LocalBelow m l n r' r) {c : Cursor} (hn : c.rest.length < n) (hl : c.rest.length < l) :
    r c = r' c := by
  obtain ⟨rest, offset⟩ := c
  cases h rest offset hn with
  | settled x used tail _ split _ run again =>
    rw [run, split, again tail (split ▸ hl)]
  | truncated run =>
    cases h' rest offset hl with
    | settled x used tail _ split _ run' again' =>
      rw [run', split, again' tail (split ▸ hn)]
    | truncated run' => rw [run, run']

theorem LocalBelow.congr {n l : Nat} {r r' q q' : Reader α} (h : LocalBelow k n l r r')
    (hq : ∀ c, c.rest.length < n → q c = r c) (hq' : ∀ c, c.rest.length < l → q' c = r' c) :
    LocalBelow k n l q q' := by
  intro rest offset hrest
  have heq := hq ⟨rest, offset⟩ hrest
  cases h rest offset hrest with
  | settled x used tail hx split enough run again =>
    exact .settled x used tail hx split enough (heq.trans run) fun tail' hlt =>
      (hq' _ hlt).trans (again tail' hlt)
  | truncated run => exact .truncated (heq.trans run)

section Nesting

variable (name : Token → ν)

/-- By induction on the levels, as for the bound of `typeWithin`. -/
theorem local_iterate (bottom bottom' : Reader (TypeSig ν)) {n l : Nat} :
    LocalBelow 1 n l ((typeOf (total name))^[n] bottom) ((typeOf (total name))^[l] bottom') := by
  induction n generalizing l with
  | zero => exact fun _ _ hrest => absurd hrest (Nat.not_lt_zero _)
  | succ n ih =>
    rw [Function.iterate_succ_apply']
    cases l with
    | zero => exact (local_typeOf name (ih (l := 0))).below_zero
    | succ l =>
      rw [Function.iterate_succ_apply']
      exact local_typeOf name ih

theorem typeWithin_eq_iterate (resolve : Token → Except SignatureFault ν) (bound : Nat) :
    typeWithin resolve bound = (typeOf resolve)^[bound] (typeWithin resolve 0) := by
  induction bound with
  | zero => rfl
  | succ bound ih => rw [Function.iterate_succ_apply', ← ih, typeWithin]

/-- More levels than there are bytes read the same as any other number of such levels, whatever
    stands at the innermost: it is not reached. -/
theorem iterate_eq_type (bottom : Reader (TypeSig ν)) {n : Nat} {c : Cursor}
    (h : c.rest.length < n) : (typeOf (total name))^[n] bottom c = type (total name) c := by
  have htype : type (total name) c = typeWithin (total name) (c.rest.length + 1) c := rfl
  rw [htype, typeWithin_eq_iterate]
  exact eq_of_local (local_iterate name _ _) (local_iterate name _ _) h (Nat.lt_succ_self _)

/-- A type is its first byte, or its modifiers, and then what stands inside it, read by the same
    reader. -/
theorem type_eq_typeOf (c : Cursor) :
    type (total name) c = typeOf (total name) (type (total name)) c := by
  let bottom : Reader (TypeSig ν) := typeWithin (total name) 0
  have hinside (levels : Nat) (c' : Cursor) (hc' : c'.rest.length < levels) :
      type (total name) c' = (typeOf (total name))^[levels] bottom c' :=
    (iterate_eq_type name bottom hc').symm
  let levels := c.rest.length + 1
  have hlocal := local_iterate name bottom bottom (n := levels) (l := levels)
  have houter := local_typeOf name (hlocal.congr (hinside levels) fun _ _ => rfl)
  have houter' := local_typeOf name (hlocal.congr (fun _ _ => rfl) (hinside levels))
  rw [hinside (levels + 1) c (by omega), Function.iterate_succ_apply']
  exact (eq_of_local houter houter' (by omega) (by omega)).symm

end Nesting

end Reader

end ILDump
