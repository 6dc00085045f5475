import ILDump.Proofs.Signature.Encoding

/-!
# What readers make of written bytes

`Reads r bs a` says that `r` turns the bytes `bs` into `a` and stops right behind them,
whatever was read before and whatever follows. Readers in sequence read their bytes in
sequence, so the law of each production follows from the laws of its parts. Only the
readers that look ahead need to know what comes next.
-/

namespace ILDump

/-- A blob's bytes from a position on. -/
def Cursor.within (blob : Bytes) (position : Nat) : Cursor :=
  ⟨blob.drop position, position⟩

namespace Reader

variable {α β : Type}

/-- Turning exactly these bytes into a value, in any surroundings. -/
def Reads (r : Reader α) (bs : Bytes) (a : α) : Prop :=
  ∀ rest offset, r.run ⟨bs ++ rest, offset⟩ = .ok a ⟨rest, offset + bs.length⟩

def Starts (p : UInt8 → Prop) (bs : Bytes) : Prop :=
  ∃ b rest, bs = b :: rest ∧ p b

theorem Starts.append {p : UInt8 → Prop} {bs : Bytes} (h : Starts p bs) (more : Bytes) :
    Starts p (bs ++ more) := by
  obtain ⟨b, rest, rfl, hb⟩ := h
  exact ⟨b, rest ++ more, rfl, hb⟩

theorem Reads.run_within {r : Reader α} {bs : Bytes} {a : α} (h : Reads r bs a)
    (before after : Bytes) :
    r.run (Cursor.within (before ++ (bs ++ after)) before.length) =
      .ok a (Cursor.within (before ++ (bs ++ after)) (before.length + bs.length)) := by
  have hstart : Cursor.within (before ++ (bs ++ after)) before.length =
      ⟨bs ++ after, before.length⟩ := by
    simp [Cursor.within]
  have hstop : Cursor.within (before ++ (bs ++ after)) (before.length + bs.length) =
      ⟨after, before.length + bs.length⟩ := by
    simp [Cursor.within, ← List.drop_drop]
  rw [hstart, hstop]
  exact h after before.length

/-- A blob with nothing else in it is read to its end. -/
theorem Reads.run_start {r : Reader α} {bs : Bytes} {a : α} (h : Reads r bs a) :
    r.run (Cursor.start bs) = .ok a ⟨[], bs.length⟩ := by
  have hrun := h [] 0
  rwa [List.append_nil, Nat.zero_add] at hrun

/-! ### Readers in sequence -/

theorem Reads.pure (a : α) : Reads (Pure.pure a : Reader α) [] a := fun _ _ => rfl

theorem Reads.bind {r : Reader α} {f : α → Reader β} {bs cs : Bytes} {a : α} {b : β}
    (hr : Reads r bs a) (hf : Reads (f a) cs b) : Reads (r >>= f) (bs ++ cs) b := by
  intro rest offset
  rw [EStateM.run_bind, List.append_assoc, hr (cs ++ rest) offset]
  simp only [hf rest, List.length_append, Nat.add_assoc]

theorem Reads.bind_pure {r : Reader α} {bs : Bytes} {a : α} (hr : Reads r bs a)
    (g : α → β) : Reads (r >>= fun a => Pure.pure (g a)) bs (g a) := by
  have h := hr.bind (f := fun a => Pure.pure (g a)) (Reads.pure (g a))
  rwa [List.append_nil] at h

theorem Reads.map {r : Reader α} {bs : Bytes} {a : α} (hr : Reads r bs a) (g : α → β) :
    Reads (g <$> r) bs (g a) := by
  rw [map_eq_pure_bind]
  exact hr.bind_pure g

theorem reads_byte (b : UInt8) : Reads byte [b] b := fun _ _ => rfl

theorem Reads.byte_bind {f : UInt8 → Reader β} {b : UInt8} {cs : Bytes} {x : β}
    (hf : Reads (f b) cs x) : Reads (byte >>= f) (b :: cs) x :=
  (reads_byte b).bind hf

theorem reads_lift (a : α) : Reads (lift (.ok a)) [] a := fun _ _ => rfl

theorem reads_vector {item : Reader β} {write : α → Bytes} {value : α → β} (xs : List α)
    (h : ∀ x ∈ xs, Reads item (write x) (value x)) :
    Reads (vector item xs.length) (xs.flatMap write) (xs.map value) := by
  induction xs with
  | nil => exact Reads.pure []
  | cons x xs ih =>
    have hx := h x (by simp)
    have hxs := ih fun y hy => h y (by simp [hy])
    simp only [List.length_cons, List.flatMap_cons, List.map_cons, vector]
    exact hx.bind (hxs.bind_pure (value x :: ·))

end Reader

end ILDump
