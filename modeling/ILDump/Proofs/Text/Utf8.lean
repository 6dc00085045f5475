import ILDump.Text.Utf8
import Mathlib.Data.List.Basic

/-!
# Reading UTF-8 back

The octets of a text are read as that text. Each character is announced by its first octet, which
leaves so many continuation octets to come and lets no overlong form and no surrogate through; the
octets that a character is written with are within these bounds, and the bits that they bring in
are those of the character.
-/

namespace ILDump.Utf8

/-! ### Continuation octets -/

theorem scan_last {n : Nat} (hn : n < 64) (bits : Nat) (bs : Bytes) :
    scan (some ⟨1, 0x80, 0xBF, bits⟩) (UInt8.ofNat (n + 0x80) :: bs) =
      some (Char.ofNat (bits * 64 + n)) :: scan none bs := by
  have hlower : (n + 0x80) % 64 = n := by omega
  have hbounds : 0x80 ≤ n + 0x80 ∧ n + 0x80 ≤ 0xBF := by omega
  rw [scan, UInt8.toNat_ofNat_of_lt' (show _ < 256 by omega), if_pos hbounds, hlower]
  rfl

theorem scan_continued {low high n : Nat} (hn : n < 64) (hlow : low ≤ n + 0x80)
    (hhigh : n + 0x80 ≤ high) (missing bits : Nat) (bs : Bytes) :
    scan (some ⟨missing + 2, low, high, bits⟩) (UInt8.ofNat (n + 0x80) :: bs) =
      scan (some ⟨missing + 1, 0x80, 0xBF, bits * 64 + n⟩) bs := by
  have hlower : (n + 0x80) % 64 = n := by omega
  rw [scan, UInt8.toNat_ofNat_of_lt' (show _ < 256 by omega), if_pos ⟨hlow, hhigh⟩, hlower]
  rfl

/-! ### First octets -/

theorem scan_starts {n : Nat} {p : Pending} (hlead : lead (UInt8.ofNat n) = .starts p)
    (bs : Bytes) : scan none (UInt8.ofNat n :: bs) = scan (some p) bs := by
  rw [scan, hlead]

theorem lead_one {n : Nat} (h : n < 0x80) : lead (UInt8.ofNat n) = .whole (Char.ofNat n) := by
  rw [lead, UInt8.toNat_ofNat_of_lt' (show _ < 256 by omega), if_pos h]

theorem lead_two {n : Nat} (hlow : 0xC2 ≤ n) (hhigh : n < 0xE0) :
    lead (UInt8.ofNat n) = .starts ⟨1, 0x80, 0xBF, n - 0xC0⟩ := by
  rw [lead, UInt8.toNat_ofNat_of_lt' (show _ < 256 by omega), if_neg (by omega),
    if_neg (by omega), if_pos hhigh]

/-- The first of three octets bounds the second one so that the character is not overlong and no
    surrogate. -/
theorem lead_three {v : Nat} (hlow : 0x800 ≤ v) (hhigh : v < 0x10000) (hvalid : v.isValidChar) :
    ∃ low high, lead (UInt8.ofNat (v / 4096 + 0xE0)) = .starts ⟨2, low, high, v / 4096⟩ ∧
      low ≤ v / 64 % 64 + 0x80 ∧ v / 64 % 64 + 0x80 ≤ high := by
  rw [lead, UInt8.toNat_ofNat_of_lt' (show _ < 256 by omega), if_neg (by omega),
    if_neg (by omega), if_neg (by omega)]
  rw [Nat.isValidChar] at hvalid
  by_cases hzero : v / 4096 = 0
  · exact ⟨0xA0, 0xBF, by rw [if_pos (by omega), hzero], by omega, by omega⟩
  rw [if_neg (by omega)]
  by_cases hsurrogates : v / 4096 = 0xD
  · exact ⟨0x80, 0x9F, by rw [if_pos (by omega), hsurrogates], by omega, by omega⟩
  · refine ⟨0x80, 0xBF, ?_, by omega, by omega⟩
    rw [if_neg (by omega), if_pos (by omega), Nat.add_sub_cancel]

/-- The first of four octets bounds the second one so that the character is not overlong and not
    too large. -/
theorem lead_four {v : Nat} (hlow : 0x10000 ≤ v) (hhigh : v < 0x110000) :
    ∃ low high, lead (UInt8.ofNat (v / 262144 + 0xF0)) = .starts ⟨3, low, high, v / 262144⟩ ∧
      low ≤ v / 4096 % 64 + 0x80 ∧ v / 4096 % 64 + 0x80 ≤ high := by
  rw [lead, UInt8.toNat_ofNat_of_lt' (show _ < 256 by omega), if_neg (by omega),
    if_neg (by omega), if_neg (by omega), if_neg (by omega), if_neg (by omega),
    if_neg (by omega)]
  by_cases hzero : v / 262144 = 0
  · exact ⟨0x90, 0xBF, by rw [if_pos (by omega), hzero], by omega, by omega⟩
  rw [if_neg (by omega)]
  by_cases hfour : v / 262144 = 4
  · refine ⟨0x80, 0x8F, ?_, by omega, by omega⟩
    rw [if_neg (by omega), if_pos (by omega), hfour]
  · refine ⟨0x80, 0xBF, ?_, by omega, by omega⟩
    rw [if_pos (by omega), Nat.add_sub_cancel]

/-! ### Characters -/

/-- Each character is read from its own octets, by the number of these. -/
theorem scan_encodeChar (c : Char) (bs : Bytes) :
    scan none (String.utf8EncodeChar c ++ bs) = some c :: scan none bs := by
  have hvalid : c.toNat.isValidChar := c.valid
  have hv : c.val.toNat = c.toNat := rfl
  have hbound : c.toNat < 0x110000 := by
    rw [Nat.isValidChar] at hvalid
    omega
  have hlast : c.toNat % 64 < 64 := Nat.mod_lt _ (by decide)
  have hlater : c.toNat / 64 % 64 < 64 := Nat.mod_lt _ (by decide)
  have hlater' : c.toNat / 4096 % 64 < 64 := Nat.mod_lt _ (by decide)
  unfold String.utf8EncodeChar
  simp only [hv]
  split
  · rename_i hone
    rw [List.singleton_append, scan, lead_one (by omega), Char.ofNat_toNat]
  split
  · rename_i htwo
    have hfirst : c.toNat / 64 % 32 + 192 = c.toNat / 64 + 192 := by omega
    have hbits : c.toNat / 64 * 64 + c.toNat % 64 = c.toNat := Nat.div_add_mod' _ _
    rw [hfirst, List.cons_append, scan_starts (lead_two (by omega) (by omega)), List.cons_append,
      Nat.add_sub_cancel, scan_last hlast, List.nil_append, hbits, Char.ofNat_toNat]
  split
  · rename_i hthree
    obtain ⟨low, high, hlead, hlow, hhigh⟩ := lead_three (by omega) (by omega) hvalid
    have hfirst : c.toNat / 4096 % 16 + 224 = c.toNat / 4096 + 224 := by omega
    have hbits : (c.toNat / 4096 * 64 + c.toNat / 64 % 64) * 64 + c.toNat % 64 = c.toNat := by
      omega
    rw [hfirst, List.cons_append, scan_starts hlead, List.cons_append,
      scan_continued hlater hlow hhigh, List.cons_append, scan_last hlast, List.nil_append, hbits,
      Char.ofNat_toNat]
  · obtain ⟨low, high, hlead, hlow, hhigh⟩ := lead_four (by omega) hbound
    have hfirst : c.toNat / 262144 % 8 + 240 = c.toNat / 262144 + 240 := by omega
    have hbits : ((c.toNat / 262144 * 64 + c.toNat / 4096 % 64) * 64 +
        c.toNat / 64 % 64) * 64 + c.toNat % 64 = c.toNat := by omega
    rw [hfirst, List.cons_append, scan_starts hlead, List.cons_append,
      scan_continued hlater' hlow hhigh, List.cons_append,
      scan_continued hlater (by omega) (by omega), List.cons_append, scan_last hlast,
      List.nil_append, hbits, Char.ofNat_toNat]

/-! ### Texts -/

theorem encode_eq_flatMap (s : String) : encode s = s.toList.flatMap String.utf8EncodeChar := by
  rw [encode, String.toUTF8, ← String.utf8Encode_toList, List.utf8Encode,
    List.toList_data_toByteArray]

theorem scan_flatMap (cs : List Char) :
    scan none (cs.flatMap String.utf8EncodeChar) = cs.map some := by
  induction cs with
  | nil => rfl
  | cons c cs ih => rw [List.flatMap_cons, scan_encodeChar, ih, List.map_cons]

theorem mapM_id_some (cs : List Char) : (cs.map some).mapM id = some cs := by
  induction cs with
  | nil => rfl
  | cons c cs ih => simp [List.mapM_cons, ih]

/-- A text is read from its octets. -/
theorem decode?_encode (s : String) : decode? (encode s) = some s := by
  rw [decode?, encode_eq_flatMap, scan_flatMap, mapM_id_some, Option.map_some,
    String.ofList_toList]

end ILDump.Utf8
