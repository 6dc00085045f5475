import ILDump.Proofs.Outcomes
import ILDump.Proofs.Signature.Integers
import Mathlib.Algebra.Group.Int.Defs

/-!
# Compressed integers in any bytes

A number that was written is read back; here any bytes are read. The lead byte alone says how
many bytes a number takes, or that none starts with it, so reading can end in three ways:
`Course` has one constructor for each, with what the bytes look like then. The conditions exclude
each other, which turns each of them into an exact one.

Every choice of continuation bytes behind a lead byte is the encoding of a number that fits the
width, and so a number that was read can be written in its width again. For signed numbers
rotating and rotating back are inverse to each other within a width.
-/

namespace ILDump

namespace Encoding

/-! ### Lead bytes -/

/-- How many bytes a lead byte calls for, itself included: `0`, `10` or `110` stands in its
    upper bits, in front of the value. -/
def leadSize? (lead : UInt8) : Option Nat :=
  if lead &&& 0x80 = 0 then some 1
  else if lead &&& 0xC0 = 0x80 then some 2
  else if lead &&& 0xE0 = 0xC0 then some 4
  else none

/-- Bytes that end before a number does: there is no lead byte, or it calls for more of them. -/
def CutShort (bytes : Bytes) : Prop :=
  ∀ lead ∈ bytes.head?, ∃ size, leadSize? lead = some size ∧ bytes.length < size

/-- The widths of numbers, each with the numbers that it has room for. -/
def HasRoom (size n : Nat) : Prop :=
  (size = 1 ∧ n < 2 ^ 7) ∨ (size = 2 ∧ n < 2 ^ 14) ∨ (size = 4 ∧ n < 2 ^ 29)

/-- The widths of signed numbers. -/
def HasSignedRoom (size : Nat) (v : Int) : Prop :=
  (size = 1 ∧ -2 ^ 6 ≤ v ∧ v < 2 ^ 6) ∨ (size = 2 ∧ -2 ^ 13 ≤ v ∧ v < 2 ^ 13) ∨
    (size = 4 ∧ -2 ^ 28 ≤ v ∧ v < 2 ^ 28)

theorem fits_iff_hasRoom {size n : Nat} : Fits size n ↔ HasRoom size n := by
  constructor
  · rintro ⟨rfl | rfl | rfl, hn⟩
    · exact .inl ⟨rfl, hn⟩
    · exact .inr (.inl ⟨rfl, hn⟩)
    · exact .inr (.inr ⟨rfl, hn⟩)
  · rintro (⟨rfl, hn⟩ | ⟨rfl, hn⟩ | ⟨rfl, hn⟩)
    · exact ⟨.inl rfl, hn⟩
    · exact ⟨.inr (.inl rfl), hn⟩
    · exact ⟨.inr (.inr rfl), hn⟩

theorem forall_byte {p : UInt8 → Prop} (h : ∀ n : Fin 256, p (UInt8.ofNat n)) (b : UInt8) : p b := by
  have hb := h ⟨b.toNat, b.toNat_lt⟩
  rwa [UInt8.ofNat_toNat] at hb

/-- The bits of a lead byte by its value. -/
theorem leadSize?_eq : ∀ lead, leadSize? lead =
    if lead.toNat < 0x80 then some 1 else if lead.toNat < 0xC0 then some 2
    else if lead.toNat < 0xE0 then some 4 else none :=
  forall_byte (by decide +kernel)

theorem leadSize?_eq_none_iff : ∀ lead, leadSize? lead = none ↔ lead &&& 0xE0 = 0xE0 :=
  forall_byte (by decide +kernel)

theorem leadSize?_eq_some_iff {lead : UInt8} {size : Nat} : leadSize? lead = some size ↔
    (size = 1 ∧ lead.toNat < 0x80) ∨ (size = 2 ∧ 0x80 ≤ lead.toNat ∧ lead.toNat < 0xC0) ∨
      (size = 4 ∧ 0xC0 ≤ lead.toNat ∧ lead.toNat < 0xE0) := by
  rw [leadSize?_eq]
  split_ifs <;> simp only [Option.some.injEq, false_iff] <;> omega

theorem exists_of_leadSize?_eq_some {lead : UInt8} {size : Nat} (h : leadSize? lead = some size) :
    ∃ more, size = more + 1 := by
  rcases leadSize?_eq_some_iff.mp h with ⟨rfl, -⟩ | ⟨rfl, -, -⟩ | ⟨rfl, -, -⟩
  · exact ⟨0, rfl⟩
  · exact ⟨1, rfl⟩
  · exact ⟨3, rfl⟩

theorem le_of_leadSize?_eq_none {lead : UInt8} (h : leadSize? lead = none) :
    0xE0 ≤ lead.toNat := by
  rw [leadSize?_eq] at h
  split_ifs at h
  omega

/-! ### Bytes of a width -/

/-- What is behind a lead byte are the lower parts of a number. -/
theorem exists_inWidth {lead : UInt8} {tail : Bytes} {size : Nat}
    (hsize : leadSize? lead = some size) (hlength : (lead :: tail).length = size) :
    ∃ n, Fits size n ∧ lead :: tail = inWidth size n := by
  rcases leadSize?_eq_some_iff.mp hsize with ⟨rfl, hlead⟩ | ⟨rfl, hlow, hhigh⟩ | ⟨rfl, hlow, hhigh⟩
  · obtain rfl : tail = [] := by simpa using hlength
    exact ⟨lead.toNat, ⟨.inl rfl, hlead⟩, by simp [inWidth]⟩
  · obtain ⟨b, rfl⟩ := List.length_eq_one_iff.mp (Nat.succ.inj hlength)
    have hb := b.toNat_lt
    refine ⟨(lead.toNat - 0x80) * 0x100 + b.toNat,
      ⟨.inr (.inl rfl), by simp [Reader.compressedBits]; omega⟩, ?_⟩
    simp only [inWidth, List.cons.injEq, ← UInt8.toNat_inj, UInt8.toNat_ofNat', and_true]
    omega
  · obtain ⟨b, c, d, rfl⟩ := List.length_eq_three.mp (Nat.succ.inj hlength)
    have hb := b.toNat_lt
    have hc := c.toNat_lt
    have hd := d.toNat_lt
    refine ⟨(((lead.toNat - 0xC0) * 0x100 + b.toNat) * 0x100 + c.toNat) * 0x100 + d.toNat,
      ⟨.inr (.inr rfl), by simp [Reader.compressedBits]; omega⟩, ?_⟩
    simp only [inWidth, List.cons.injEq, ← UInt8.toNat_inj, UInt8.toNat_ofNat', and_true]
    omega

end Encoding

open Encoding

namespace Reader

/-! ### How reading ends -/

/-- The three ends of reading a compressed integer. -/
inductive Course (c : Cursor) : EStateM.Result SignatureFault Cursor Nat → Prop where
  | number {lead : UInt8} {size n : Nat} {rest : Bytes} : c.rest.head? = some lead →
    leadSize? lead = some size → Fits size n → c.rest = inWidth size n ++ rest →
    Course c (.ok n ⟨rest, c.offset + size⟩)
  | badLead {lead : UInt8} {rest : Bytes} : c.rest = lead :: rest → leadSize? lead = none →
    Course c (.error (.badLeadByte lead) ⟨rest, c.offset + 1⟩)
  | cutShort : CutShort c.rest →
    Course c (.error (.truncated (c.offset + c.rest.length)) ⟨[], c.offset + c.rest.length⟩)

theorem run_compressed_of_inWidth {size n : Nat} (h : Fits size n) (rest : Bytes) (offset : Nat) :
    compressed.run ⟨inWidth size n ++ rest, offset⟩ = .ok n ⟨rest, offset + size⟩ := by
  have hread := reads_inWidth h rest offset
  rwa [length_inWidth h] at hread

theorem run_compressed_of_badLead {lead : UInt8} (h : leadSize? lead = none) (rest : Bytes)
    (offset : Nat) :
    compressed.run ⟨lead :: rest, offset⟩ = .error (.badLeadByte lead) ⟨rest, offset + 1⟩ := by
  have hlead := le_of_leadSize?_eq_none h
  refine (bind_eq_of_ok (rfl : byte ⟨lead :: rest, offset⟩ = _)).trans ?_
  rw [if_neg (by omega), if_neg (by omega), if_neg (by omega)]
  rfl

/-- One missing byte or up to three of them: the byte that is asked for first is told. -/
theorem run_compressed_of_cutShort {bytes : Bytes} (h : CutShort bytes) (offset : Nat) :
    compressed.run ⟨bytes, offset⟩ =
      .error (.truncated (offset + bytes.length)) ⟨[], offset + bytes.length⟩ := by
  match bytes, h with
  | [], _ => rfl
  | lead :: tail, h =>
    obtain ⟨size, hsize, hlength⟩ := h lead rfl
    refine (bind_eq_of_ok (rfl : byte ⟨lead :: tail, offset⟩ = _)).trans ?_
    rw [List.length_cons] at hlength
    rcases leadSize?_eq_some_iff.mp hsize with ⟨rfl, _⟩ | ⟨rfl, _, _⟩ | ⟨rfl, _, _⟩
    · omega
    · obtain rfl : tail = [] := List.length_eq_zero_iff.mp (by omega)
      rw [if_neg (by omega), if_pos (by omega)]
      rfl
    · rw [if_neg (by omega), if_neg (by omega), if_pos (by omega)]
      match tail, hlength with
      | [], _ => rfl
      | [_], _ => rfl
      | [_, _], _ => rfl
      | _ :: _ :: _ :: _, hlength => exact absurd hlength (by simp)

/-- Every end of reading is one of the three. -/
theorem course_compressed (c : Cursor) : Course c (compressed.run c) := by
  obtain ⟨bytes, offset⟩ := c
  by_cases hshort : CutShort bytes
  · rw [run_compressed_of_cutShort hshort]
    exact .cutShort hshort
  · simp only [CutShort, not_forall, not_exists, not_and, Nat.not_lt] at hshort
    obtain ⟨lead, hlead, hlong⟩ := hshort
    obtain ⟨tail, rfl⟩ := List.head?_eq_some_iff.mp hlead
    cases hsize : leadSize? lead with
    | none =>
      rw [run_compressed_of_badLead hsize]
      exact .badLead rfl hsize
    | some size =>
      obtain ⟨more, rfl⟩ := exists_of_leadSize?_eq_some hsize
      have hlength : (lead :: tail.take more).length = more + 1 := by
        have hle := hlong (more + 1) hsize
        rw [List.length_cons] at hle
        rw [List.length_cons, List.length_take_of_le (by omega)]
      obtain ⟨n, hfits, hbytes⟩ := exists_inWidth hsize hlength
      have hsplit : lead :: tail = inWidth (more + 1) n ++ tail.drop more := by
        rw [← hbytes, List.cons_append, List.take_append_drop]
      rw [hsplit, run_compressed_of_inWidth hfits]
      exact .number (by rw [← hsplit]; rfl) hsize hfits rfl

/-- When reading a compressed integer ends in which way. -/
structure CompressedEnds (c : Cursor) : Prop where
  /-- With a number if the bytes begin with it, in the width that their lead byte calls for. -/
  number : ∀ n stop, compressed.run c = .ok n stop ↔
    ∃ lead size, c.rest.head? = some lead ∧ leadSize? lead = some size ∧ HasRoom size n ∧
      c.rest = inWidth size n ++ stop.rest ∧ stop.offset = c.offset + size
  /-- Behind a lead byte with its top three bits set. -/
  badLead : ∀ lead stop, compressed.run c = .error (.badLeadByte lead) stop ↔
    lead &&& 0xE0 = 0xE0 ∧ c.rest = lead :: stop.rest ∧ stop.offset = c.offset + 1
  /-- At the end of the bytes, if there are fewer of them than the lead byte calls for. -/
  cutShort : ∀ offset stop, compressed.run c = .error (.truncated offset) stop ↔
    CutShort c.rest ∧ offset = c.offset + c.rest.length ∧ stop = ⟨[], offset⟩
  noOther : ∀ fault stop, compressed.run c = .error fault stop →
    (∃ lead, fault = .badLeadByte lead) ∨ ∃ offset, fault = .truncated offset

/-- No two ends fit the same bytes, so what is true of the bytes decides which one it is. -/
theorem compressedEnds (c : Cursor) : CompressedEnds c where
  number := by
    intro n stop
    constructor
    · intro hrun
      have hcourse := course_compressed c
      rw [hrun] at hcourse
      obtain ⟨hlead, hsize, hfits, hrest⟩ := hcourse
      exact ⟨_, _, hlead, hsize, fits_iff_hasRoom.mp hfits, hrest, rfl⟩
    · rintro ⟨lead, size, -, -, hroom, hrest, hstop⟩
      calc compressed.run c
        _ = compressed.run ⟨inWidth size n ++ stop.rest, c.offset⟩ := by rw [← hrest]
        _ = .ok n ⟨stop.rest, c.offset + size⟩ :=
          run_compressed_of_inWidth (fits_iff_hasRoom.mpr hroom) _ _
        _ = .ok n stop := by rw [← hstop]
  badLead := by
    intro lead stop
    rw [← leadSize?_eq_none_iff]
    constructor
    · intro hrun
      have hcourse := course_compressed c
      rw [hrun] at hcourse
      obtain - | ⟨hrest, hsize⟩ := hcourse
      exact ⟨hsize, hrest, rfl⟩
    · rintro ⟨hsize, hrest, hstop⟩
      calc compressed.run c
        _ = compressed.run ⟨lead :: stop.rest, c.offset⟩ := by rw [← hrest]
        _ = .error (.badLeadByte lead) ⟨stop.rest, c.offset + 1⟩ :=
          run_compressed_of_badLead hsize _ _
        _ = .error (.badLeadByte lead) stop := by rw [← hstop]
  cutShort := by
    intro offset stop
    constructor
    · intro hrun
      have hcourse := course_compressed c
      rw [hrun] at hcourse
      obtain - | - | hshort := hcourse
      exact ⟨hshort, rfl, rfl⟩
    · rintro ⟨hshort, rfl, rfl⟩
      exact run_compressed_of_cutShort hshort c.offset
  noOther := by
    intro fault stop hrun
    have hcourse := course_compressed c
    rw [hrun] at hcourse
    cases hcourse with
    | badLead _ _ => exact .inl ⟨_, rfl⟩
    | cutShort _ => exact .inr ⟨_, rfl⟩

/-! ### Unsigned numbers -/

theorem hasRoom_unsigned {n : Nat} (h : n < limit) :
    HasRoom (unsigned n).length n ∧ ∀ size, HasRoom size n → (unsigned n).length ≤ size := by
  have hfits := fits_width h
  have hlength : (unsigned n).length = width n := length_inWidth hfits
  rw [hlength]
  refine ⟨fits_iff_hasRoom.mp hfits, fun size hroom => ?_⟩
  unfold width
  unfold HasRoom at hroom
  split_ifs <;> omega

theorem message_badLeadByte (lead : UInt8) : (SignatureFault.badLeadByte lead).message =
    "Invalid compressed integer lead byte 0x" ++ Digits.hexByte .upper lead := by
  have hmessage : (SignatureFault.badLeadByte lead).message =
      "Invalid compressed integer lead byte " ++ ("0x" ++ Digits.hexByte .upper lead) := rfl
  rw [hmessage, ← String.append_assoc]
  rfl

/-- **Compressed integers, exactly.** Below the limit every number is read from its encoding,
    in whatever surroundings, and the encoding is the shortest that has room for it. From any
    bytes, reading succeeds if and only if they begin with a number in the width that the lead
    byte calls for; it refuses the lead bytes with the top three bits set, and finds bytes
    missing where there are fewer than the lead byte calls for. -/
theorem compressed_exact :
    (∀ n < limit, Reads compressed (unsigned n) n ∧ HasRoom (unsigned n).length n ∧
      ∀ size, HasRoom size n → (unsigned n).length ≤ size) ∧
    (∀ c, CompressedEnds c) ∧
    ∀ lead, (SignatureFault.badLeadByte lead).message =
      "Invalid compressed integer lead byte 0x" ++ Digits.hexByte .upper lead :=
  ⟨fun _ h => ⟨reads_unsigned h, hasRoom_unsigned h⟩, compressedEnds, message_badLeadByte⟩

-- a longer encoding than needed is read as well
example : compressed.run (Cursor.start [0xC0, 0x00, 0x00, 0x01, 0x02]) = .ok 1 ⟨[0x02], 4⟩ := rfl

/-! ### Signed numbers -/

/-- Within its width a signed number keeps to half of the numbers on each side of zero. -/
theorem unrotate_bounds {bits raw : Nat} (hbits : 0 < bits) (hraw : raw < 2 ^ bits) :
    -((2 ^ (bits - 1) : Nat) : Int) ≤ unrotate bits raw ∧
      unrotate bits raw < (2 ^ (bits - 1) : Nat) := by
  rw [two_pow_eq_double hbits] at hraw
  rw [unrotate, Nat.pow_eq]
  generalize 2 ^ (bits - 1) = half at hraw
  split_ifs <;> omega

theorem rotate_unrotate {bits raw : Nat} (hbits : 0 < bits) (hraw : raw < 2 ^ bits) :
    rotate bits (unrotate bits raw) = raw := by
  obtain ⟨hlow, hhigh⟩ := unrotate_bounds hbits hraw
  rw [two_pow_eq_double hbits] at hraw
  by_cases hsign : raw % 2 = 1
  · have hvalue : unrotate bits raw = (raw / 2 : Nat) - (2 ^ (bits - 1) : Nat) := by
      rw [unrotate, if_pos hsign, Nat.pow_eq]
    rw [rotate_of_neg hbits hlow (by omega), hvalue]
    omega
  · have hvalue : unrotate bits raw = (raw / 2 : Nat) := by rw [unrotate, if_neg hsign]
    rw [rotate_of_nonneg hbits (by omega) hhigh, hvalue]
    omega

theorem hasSignedRoom_iff {size : Nat} {v : Int} : HasSignedRoom size v ↔
    (size = 1 ∨ size = 2 ∨ size = 4) ∧ -((2 ^ (compressedBits size - 1) : Nat) : Int) ≤ v ∧
      v < (2 ^ (compressedBits size - 1) : Nat) := by
  constructor
  · rintro (⟨rfl, hv⟩ | ⟨rfl, hv⟩ | ⟨rfl, hv⟩)
    · exact ⟨.inl rfl, hv⟩
    · exact ⟨.inr (.inl rfl), hv⟩
    · exact ⟨.inr (.inr rfl), hv⟩
  · rintro ⟨rfl | rfl | rfl, hv⟩
    · exact .inl ⟨rfl, hv⟩
    · exact .inr (.inl ⟨rfl, hv⟩)
    · exact .inr (.inr ⟨rfl, hv⟩)

/-- A number that was read stands in the bytes that were used, rotated in their width. -/
theorem exists_used_of_compressedSigned {c stop : Cursor} {v : Int}
    (h : compressedSigned.run c = .ok v stop) :
    ∃ used, c.rest = used ++ stop.rest ∧ stop.offset = c.offset + used.length ∧
      HasSignedRoom used.length v ∧
      used = inWidth used.length (rotate (compressedBits used.length) v) := by
  obtain ⟨before, _, hbefore, h⟩ := exists_of_bind_run h
  cases hbefore
  obtain ⟨raw, stop', hraw, h⟩ := exists_of_bind_run h
  obtain ⟨after, _, hafter, h⟩ := exists_of_bind_run h
  cases hafter
  cases h
  obtain ⟨lead, size, -, -, hroom, hrest, hstop⟩ := ((compressedEnds c).number raw stop).mp hraw
  have hfits := fits_iff_hasRoom.mpr hroom
  have hlength := length_inWidth hfits
  have hbits : 0 < compressedBits size := by
    rcases hfits.1 with rfl | rfl | rfl <;> decide
  rw [hstop, Nat.add_sub_cancel_left]
  refine ⟨inWidth size raw, hrest, ?_, ?_, ?_⟩
  · rw [hlength]
  · rw [hlength]
    exact hasSignedRoom_iff.mpr ⟨hfits.1, unrotate_bounds hbits hfits.2⟩
  · rw [hlength, rotate_unrotate hbits hfits.2]

theorem hasSignedRoom_signed {v : Int} (hlow : -2 ^ 28 ≤ v) (hhigh : v < 2 ^ 28) :
    HasSignedRoom (signed v).length v ∧
      ∀ size, HasSignedRoom size v → (signed v).length ≤ size := by
  have hwidth : HasSignedRoom (signedWidth v) v := by
    unfold signedWidth HasSignedRoom
    split_ifs <;> omega
  obtain ⟨hsize, hmin, hmax⟩ := hasSignedRoom_iff.mp hwidth
  have hbits : 0 < compressedBits (signedWidth v) := by
    rcases hsize with h | h | h <;> (rw [h]; decide)
  have hlength : (signed v).length = signedWidth v :=
    length_inWidth ⟨hsize, rotate_lt hbits hmin hmax⟩
  rw [hlength]
  refine ⟨hwidth, fun size hroom => ?_⟩
  unfold signedWidth
  unfold HasSignedRoom at hroom
  split_ifs <;> omega

/-- **Signed compressed integers, exactly.** Every number of 29 bits is read from its encoding,
    which is the shortest that has room for it, whatever follows. From any bytes, a number that
    is read lies in the range of the width that was used, and within one width different bytes
    give different numbers. -/
theorem compressedSigned_exact :
    (∀ v, -2 ^ 28 ≤ v → v < 2 ^ 28 → Reads compressedSigned (signed v) v ∧
      HasSignedRoom (signed v).length v ∧
      ∀ size, HasSignedRoom size v → (signed v).length ≤ size) ∧
    (∀ c stop v, compressedSigned.run c = .ok v stop → ∃ used, c.rest = used ++ stop.rest ∧
      stop.offset = c.offset + used.length ∧ HasSignedRoom used.length v) ∧
    ∀ c stop c' stop' used used' v, compressedSigned.run c = .ok v stop →
      compressedSigned.run c' = .ok v stop' → c.rest = used ++ stop.rest →
      c'.rest = used' ++ stop'.rest → used.length = used'.length → used = used' := by
  refine ⟨?reads, ?ranges, ?apart⟩
  case reads =>
    intro v hlow hhigh
    exact ⟨reads_signed hlow hhigh, hasSignedRoom_signed hlow hhigh⟩
  case ranges =>
    intro c stop v h
    obtain ⟨used, hrest, hstop, hroom, -⟩ := exists_used_of_compressedSigned h
    exact ⟨used, hrest, hstop, hroom⟩
  case apart =>
    intro c stop c' stop' used used' v h h' hrest hrest' hlength
    obtain ⟨bytes, hbytes, -, -, heq⟩ := exists_used_of_compressedSigned h
    obtain ⟨bytes', hbytes', -, -, heq'⟩ := exists_used_of_compressedSigned h'
    obtain rfl : used = bytes := List.append_cancel_right (hrest.symm.trans hbytes)
    obtain rfl : used' = bytes' := List.append_cancel_right (hrest'.symm.trans hbytes')
    rw [heq, heq', hlength]

-- the least number of one byte
example : compressedSigned.run (Cursor.start [0x01]) = .ok (-0x40) ⟨[], 1⟩ := rfl

end Reader

end ILDump
