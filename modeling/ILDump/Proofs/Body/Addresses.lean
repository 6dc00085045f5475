import ILDump.Body.Code
import ILDump.Proofs.Outcomes

/-!
# Addresses of instructions

Reading never goes back, and every instruction takes at least the byte of its opcode. So the
instructions of code that was read stand at ascending addresses, from the start of the code on.
-/

namespace ILDump.Code

variable {α β : Type} {fetch : Fetch}

theorem exists_of_bind_run {scan : Scan α} {f : α → Scan β} {s s' : Nat} {b : β}
    (h : (scan >>= f) s = .ok (b, s')) : ∃ a t, scan s = .ok (a, t) ∧ f a t = .ok (b, s') := by
  obtain ⟨⟨a, t⟩, ha, hb⟩ := exists_of_bind_eq_ok h
  exact ⟨a, t, ha, hb⟩

/-- Whenever it succeeds, the reader has moved on by at least so many bytes. -/
def Moves (k : Nat) (scan : Scan α) : Prop :=
  ∀ s a s', scan s = .ok (a, s') → s + k ≤ s'

namespace Moves

variable {k l : Nat} {scan : Scan α}

theorem pure (a : α) : Moves 0 (Pure.pure a : Scan α) := by
  intro s b s' h
  cases h
  exact Nat.le_refl _

theorem get : Moves 0 (MonadState.get : Scan Nat) := by
  intro s a s' h
  cases h
  exact Nat.le_refl _

theorem mono (h : Moves k scan) (hl : l ≤ k) : Moves l scan := by
  intro s a s' hs
  have hmoved := h s a s' hs
  omega

theorem bind {f : α → Scan β} (h : Moves k scan) (hf : ∀ a, Moves l (f a)) :
    Moves (k + l) (scan >>= f) := by
  intro s b s' hs
  obtain ⟨a, t, ha, hb⟩ := exists_of_bind_run hs
  have hfirst := h s a t ha
  have hsecond := hf a t b s' hb
  omega

theorem bytes (count : Nat) : Moves count (Code.bytes fetch count) := by
  intro s bs s' h
  obtain ⟨address, t, hget, h⟩ := exists_of_bind_run h
  cases hget
  dsimp only at h
  cases hfetch : fetch s count with
  | none =>
    rw [hfetch] at h
    cases h
  | some found =>
    rw [hfetch] at h
    dsimp only at h
    split at h
    · cases h
    · cases h
      exact Nat.le_refl _

theorem number (count : Nat) : Moves count (Code.number fetch count) :=
  (bytes count).bind fun _ => .pure _

theorem signed (count : Nat) : Moves count (Code.signed fetch count) :=
  (number count).bind fun _ => .pure _

theorem repeated (h : Moves 0 scan) (count : Nat) : Moves 0 (Code.repeated scan count) := by
  induction count with
  | zero => exact .pure _
  | succ count ih => exact h.bind fun _ => ih.bind fun _ => .pure _

theorem operand (kind : OperandKind) : Moves 0 (Code.operand fetch kind) := by
  have hskip (count : Nat) : Moves 0 (Code.number fetch count) :=
    (number count).mono (Nat.zero_le _)
  have hstep (count : Nat) : Moves 0 (Code.signed fetch count) :=
    (signed count).mono (Nat.zero_le _)
  cases kind with
  | none => exact .pure _
  | integer size => exact (hstep size).bind fun _ => .pure _
  | branch size => exact (hstep size).bind fun _ => get.bind fun _ => .pure _
  | switch =>
    exact (hskip 4).bind fun count => (repeated (hstep 4) count).bind fun _ =>
      get.bind fun _ => .pure _
  | _ => exact (hskip _).bind fun _ => .pure _

theorem opcode : Moves 1 (Code.opcode fetch) := by
  refine bind (l := 0) (number 1) fun first => ?_
  split
  · exact ((number 1).mono (Nat.zero_le _)).bind fun _ => .pure _
  · exact .pure _

end Moves

theorem instruction_address {s s' : Nat} {i : CodeInstruction}
    (h : instruction fetch s = .ok (i, s')) : i.address = s ∧ s < s' := by
  obtain ⟨address, t, hget, h⟩ := exists_of_bind_run h
  cases hget
  obtain ⟨op, t, hop, h⟩ := exists_of_bind_run h
  obtain ⟨operand, t', hoperand, h⟩ := exists_of_bind_run h
  cases h
  have hfirst := Moves.opcode s op t hop
  have hsecond := Moves.operand op.operand t operand s' hoperand
  exact ⟨rfl, by omega⟩

/-- By induction on the bound. -/
theorem addresses_of_instructionsBefore {stop bound s s' : Nat} {is : List CodeInstruction}
    (h : instructionsBefore fetch stop bound s = .ok (is, s')) :
    (is.map (·.address)).Pairwise (· < ·) ∧ ∀ i ∈ is, s ≤ i.address := by
  induction bound generalizing s is with
  | zero =>
    cases h
    simp
  | succ bound ih =>
    rw [instructionsBefore] at h
    obtain ⟨address, t, hget, h⟩ := exists_of_bind_run h
    cases hget
    split at h
    · obtain ⟨i, t, hi, h⟩ := exists_of_bind_run h
      obtain ⟨others, t', hothers, h⟩ := exists_of_bind_run h
      cases h
      obtain ⟨haddress, hlt⟩ := instruction_address hi
      obtain ⟨hpairwise, hfrom⟩ := ih hothers
      constructor
      · rw [List.map_cons, List.pairwise_cons]
        refine ⟨fun a ha => ?_, hpairwise⟩
        obtain ⟨j, hj, rfl⟩ := List.mem_map.mp ha
        have hle := hfrom j hj
        omega
      · intro j hj
        rcases List.mem_cons.mp hj with rfl | hj
        · exact Nat.le_of_eq haddress.symm
        · have hle := hfrom j hj
          omega
    · cases h
      simp

/-- The instructions of code stand at ascending addresses from its start on. -/
theorem addresses_of_read {address : Nat} {c : Code} (h : read fetch address = .ok c) :
    (c.instructions.map (·.address)).Pairwise (· < ·) ∧
      ∀ i ∈ c.instructions, c.start ≤ i.address := by
  have hrun : ∃ s', body fetch address = .ok (c, s') := by
    cases hbody : body fetch address with
    | error e =>
      rw [read, StateT.run', hbody] at h
      cases h
    | ok found =>
      rw [read, StateT.run', hbody] at h
      cases h
      exact ⟨found.2, rfl⟩
  obtain ⟨s', h⟩ := hrun
  obtain ⟨start, t, hget, h⟩ := exists_of_bind_run h
  cases hget
  obtain ⟨head, t, -, h⟩ := exists_of_bind_run h
  obtain ⟨_, t, hset, h⟩ := exists_of_bind_run h
  cases hset
  obtain ⟨is, t, his, h⟩ := exists_of_bind_run h
  have hall := addresses_of_instructionsBefore his
  split at h
  all_goals
    obtain ⟨clauses, t, -, h⟩ := exists_of_bind_run h
    cases h
    exact hall

end ILDump.Code
