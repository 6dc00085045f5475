import ILDump.Proofs.Signature.Reads
import Mathlib.Tactic.SplitIfs

/-!
# Compressed integers

Reading a compressed integer undoes writing it. A width is one, two or four bytes; within
each, the numbers below the power of two of its value bits are read back, also those that
fewer bytes could hold. Signed numbers and type tokens are built on this.
-/

namespace ILDump

open Encoding

namespace Encoding

def Fits (size n : Nat) : Prop :=
  (size = 1 ∨ size = 2 ∨ size = 4) ∧ n < 2 ^ Reader.compressedBits size

theorem length_inWidth {size n : Nat} (h : Fits size n) : (inWidth size n).length = size := by
  obtain ⟨rfl | rfl | rfl, _⟩ := h <;> rfl

theorem fits_width {n : Nat} (h : n < limit) : Fits (width n) n := by
  simp only [limit] at h
  unfold Fits width Reader.compressedBits
  split
  · exact ⟨by simp, by simpa using by omega⟩
  · split
    · exact ⟨by simp, by simpa using by omega⟩
    · exact ⟨by simp, by simpa using by omega⟩

end Encoding

namespace Reader

theorem reads_inWidth_one {n : Nat} (h : n < 0x80) : Reads compressed (inWidth 1 n) n := by
  have hlead : (UInt8.ofNat n).toNat = n := by rw [UInt8.toNat_ofNat']; omega
  refine Reads.byte_bind ?_
  simp only [hlead, if_pos h]
  exact Reads.pure n

theorem reads_inWidth_two {n : Nat} (h : n < 0x4000) : Reads compressed (inWidth 2 n) n := by
  have hlead : (UInt8.ofNat (0x80 + n / 0x100)).toNat = 0x80 + n / 0x100 := by
    rw [UInt8.toNat_ofNat']; omega
  have hlow : (UInt8.ofNat n).toNat = n % 0x100 := UInt8.toNat_ofNat'
  refine Reads.byte_bind ?_
  simp only [hlead]
  rw [if_neg (by omega), if_pos (by omega)]
  refine Reads.byte_bind ?_
  rw [hlow]
  have hvalue : (0x80 + n / 0x100 - 0x80) * 0x100 + n % 0x100 = n := by omega
  rw [hvalue]
  exact Reads.pure n

theorem reads_inWidth_four {n : Nat} (h : n < limit) : Reads compressed (inWidth 4 n) n := by
  simp only [limit] at h
  have hlead : (UInt8.ofNat (0xC0 + n / 0x1000000)).toNat = 0xC0 + n / 0x1000000 := by
    rw [UInt8.toNat_ofNat']; omega
  have hb : (UInt8.ofNat (n / 0x10000)).toNat = n / 0x10000 % 0x100 := UInt8.toNat_ofNat'
  have hc : (UInt8.ofNat (n / 0x100)).toNat = n / 0x100 % 0x100 := UInt8.toNat_ofNat'
  have hd : (UInt8.ofNat n).toNat = n % 0x100 := UInt8.toNat_ofNat'
  refine Reads.byte_bind ?_
  simp only [hlead]
  rw [if_neg (by omega), if_neg (by omega), if_pos (by omega)]
  refine Reads.byte_bind (Reads.byte_bind (Reads.byte_bind ?_))
  rw [hb, hc, hd]
  have hvalue : (((0xC0 + n / 0x1000000 - 0xC0) * 0x100 + n / 0x10000 % 0x100) * 0x100 +
      n / 0x100 % 0x100) * 0x100 + n % 0x100 = n := by omega
  rw [hvalue]
  exact Reads.pure n

/-- Every width is read back, whether or not fewer bytes would do. -/
theorem reads_inWidth {size n : Nat} (h : Fits size n) : Reads compressed (inWidth size n) n := by
  obtain ⟨rfl | rfl | rfl, hn⟩ := h
  · exact reads_inWidth_one hn
  · exact reads_inWidth_two hn
  · exact reads_inWidth_four hn

theorem reads_unsigned {n : Nat} (h : n < limit) : Reads compressed (unsigned n) n :=
  reads_inWidth (fits_width h)

/-! ### Signed integers -/

theorem two_pow_eq_double {bits : Nat} (hbits : 0 < bits) : 2 ^ bits = 2 * 2 ^ (bits - 1) := by
  rw [← Nat.pow_succ', Nat.succ_eq_add_one, Nat.sub_add_cancel hbits]

theorem rotate_of_nonneg {bits : Nat} {v : Int} (hbits : 0 < bits) (hv : 0 ≤ v)
    (hhigh : v < (2 ^ (bits - 1) : Nat)) : rotate bits v = 2 * v.toNat := by
  unfold rotate
  rw [two_pow_eq_double hbits]
  generalize 2 ^ (bits - 1) = half at hhigh
  have hcomplement : (v % ((2 * half : Nat) : Int)).toNat = v.toNat := by
    rw [Int.emod_eq_of_lt hv (by omega)]
  have htop : v.toNat / half = 0 := Nat.div_eq_of_lt (by omega)
  have hrest : v.toNat * 2 % (2 * half) = v.toNat * 2 := Nat.mod_eq_of_lt (by omega)
  simp only [hcomplement, htop, hrest]
  omega

/-- With a sign, rotating doubles what stands below the sign and brings the sign down to
    bit zero. -/
theorem rotate_of_neg {bits : Nat} {v : Int} (hbits : 0 < bits)
    (hlow : -((2 ^ (bits - 1) : Nat) : Int) ≤ v) (hv : v < 0) :
    rotate bits v = 2 * (v + (2 ^ (bits - 1) : Nat)).toNat + 1 := by
  unfold rotate
  rw [two_pow_eq_double hbits]
  generalize 2 ^ (bits - 1) = half at hlow
  have hcomplement : (v % ((2 * half : Nat) : Int)).toNat = (v + 2 * half).toNat := by
    rw [← Int.add_emod_right, Int.emod_eq_of_lt (by omega) (by omega)]
    simp
  have htop : (v + 2 * half).toNat / half = 1 := Nat.div_eq_of_lt_le (by omega) (by omega)
  have hrest : (v + 2 * half).toNat * 2 % (2 * half) = (v + 2 * half).toNat * 2 - 2 * half := by
    rw [Nat.mod_eq_sub_mod (by omega), Nat.mod_eq_of_lt (by omega)]
  simp only [hcomplement, htop, hrest]
  omega

theorem rotate_lt {bits : Nat} {v : Int} (hbits : 0 < bits)
    (hlow : -((2 ^ (bits - 1) : Nat) : Int) ≤ v) (hhigh : v < (2 ^ (bits - 1) : Nat)) :
    rotate bits v < 2 ^ bits := by
  rw [two_pow_eq_double hbits]
  by_cases hv : 0 ≤ v
  · rw [rotate_of_nonneg hbits hv hhigh]
    omega
  · rw [rotate_of_neg hbits hlow (by omega)]
    omega

/-- Rotating back gives the number, the sign included. -/
theorem unrotate_rotate {bits : Nat} {v : Int} (hbits : 0 < bits)
    (hlow : -((2 ^ (bits - 1) : Nat) : Int) ≤ v) (hhigh : v < (2 ^ (bits - 1) : Nat)) :
    unrotate bits (rotate bits v) = v := by
  unfold unrotate
  by_cases hv : 0 ≤ v
  · rw [rotate_of_nonneg hbits hv hhigh, if_neg (by omega)]
    omega
  · rw [rotate_of_neg hbits hlow (by omega), if_pos (by omega), Nat.pow_eq]
    omega

theorem run_offset (c : Cursor) : Reader.offset.run c = .ok c.offset c := rfl

theorem reads_inWidth_rotate {size : Nat} {v : Int} (hsize : size = 1 ∨ size = 2 ∨ size = 4)
    (hlow : -((2 ^ (compressedBits size - 1) : Nat) : Int) ≤ v)
    (hhigh : v < (2 ^ (compressedBits size - 1) : Nat)) :
    Reads compressedSigned (inWidth size (rotate (compressedBits size) v)) v := by
  have hbits : 0 < compressedBits size := by
    rcases hsize with rfl | rfl | rfl <;> decide
  have hfits : Fits size (rotate (compressedBits size) v) :=
    ⟨hsize, rotate_lt hbits hlow hhigh⟩
  intro rest offset
  have hraw := reads_inWidth hfits rest offset
  have hlength := length_inWidth hfits
  simp only [compressedSigned, EStateM.run_bind, run_offset, hraw, hlength, EStateM.run_pure,
    Nat.add_sub_cancel_left, unrotate_rotate hbits hlow hhigh]

theorem reads_signed {v : Int} (hlow : -0x10000000 ≤ v) (hhigh : v < 0x10000000) :
    Reads compressedSigned (signed v) v := by
  unfold signed signedWidth
  split
  case isTrue hbyte => exact reads_inWidth_rotate (.inl rfl) hbyte.1 hbyte.2
  case isFalse =>
    split
    case isTrue hword => exact reads_inWidth_rotate (.inr (.inl rfl)) hword.1 hword.2
    case isFalse => exact reads_inWidth_rotate (.inr (.inr rfl)) hlow hhigh

/-! ### Type tokens -/

theorem ofRow_table_row (t : Token) : Token.ofRow t.table t.row = t := by
  have hrow : t.value &&& 0xFFFFFF = t.value % 2 ^ 24 := Nat.and_two_pow_sub_one_eq_mod t.value 24
  have htable : t.value >>> 24 = t.value / 2 ^ 24 := Nat.shiftRight_eq_div_pow t.value 24
  have hlt : t.value % 2 ^ 24 < 2 ^ 24 := Nat.mod_lt _ (by decide)
  unfold Token.ofRow Token.table Token.row
  rw [hrow, htable, ← Nat.shiftLeft_add_eq_or_of_lt hlt, Nat.shiftLeft_eq, Nat.div_add_mod']

theorem reads_token {t : Token} (h : t.IsTypeToken) : Reads typeToken (token t) t := by
  have hrow : t.row < 2 ^ 24 := Nat.and_lt_two_pow t.value (by decide : 0xFFFFFF < 2 ^ 24)
  have htag : t.typeTag < 3 := by unfold Token.typeTag; split_ifs <;> omega
  have htable : typeTable? t.typeTag = some t.table := by
    rcases h with h | h | h <;> (rw [Token.typeTag, h]; rfl)
  have hcoded : t.row * 4 + t.typeTag < limit := by simp only [limit]; omega
  have htagged : (t.row * 4 + t.typeTag) % 4 = t.typeTag := by omega
  have hshifted : (t.row * 4 + t.typeTag) / 4 = t.row := by omega
  unfold typeToken token
  rw [← List.append_nil (unsigned _)]
  refine (reads_unsigned hcoded).bind ?_
  simp only [htagged, hshifted, htable, ofRow_table_row]
  exact Reads.pure t

end Reader

end ILDump
