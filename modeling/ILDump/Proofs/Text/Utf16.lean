import ILDump.Text.Utf16
import Mathlib.Data.List.Basic

/-!
# Reading UTF-16 back

Octets are well-formed if they can be cut into units of two such that each half of a surrogate
pair stands beside the other half. These are the octets of some text: reading gives the text,
writing it gives the octets again. So well-formed octets are told apart by the texts they are read
as, although ill-formed ones are read as U+FFFD and are not.
-/

namespace ILDump.Utf16

/-! ### Writing -/

/-- The octets of a unit, the low one first. -/
def octets (u : Nat) : Bytes :=
  [UInt8.ofNat u, UInt8.ofNat (u / 256)]

def encodeChar (c : Char) : Bytes :=
  if c.toNat < 0x10000 then octets c.toNat
  else
    octets (0xD800 + (c.toNat - 0x10000) / 1024) ++ octets (0xDC00 + (c.toNat - 0x10000) % 1024)

def encode (cs : List Char) : Bytes :=
  cs.flatMap encodeChar

theorem unit_lt (a b : UInt8) : unit a b < 0x10000 := by
  have ha := a.toNat_lt
  have hb := b.toNat_lt
  rw [unit]
  omega

theorem octets_unit (a b : UInt8) : octets (unit a b) = [a, b] := by
  have ha := a.toNat_lt
  have hlow : UInt8.ofNat (unit a b) = a := by
    apply UInt8.toNat_inj.mp
    rw [UInt8.toNat_ofNat', unit]
    omega
  have hhigh : UInt8.ofNat (unit a b / 256) = b := by
    have hdiv : unit a b / 256 = b.toNat := by
      rw [unit]
      omega
    rw [hdiv, UInt8.ofNat_toNat]
  rw [octets, hlow, hhigh]

theorem unit_octets {u : Nat} (h : u < 0x10000) :
    unit (UInt8.ofNat u) (UInt8.ofNat (u / 256)) = u := by
  rw [unit, UInt8.toNat_ofNat', UInt8.toNat_ofNat']
  omega

theorem isLeading_iff {u : Nat} : isLeading u = true ↔ 0xD800 ≤ u ∧ u < 0xDC00 := by
  simp [isLeading]

theorem isTrailing_iff {u : Nat} : isTrailing u = true ↔ 0xDC00 ≤ u ∧ u < 0xE000 := by
  simp [isTrailing]

/-! ### Well-formed octets -/

/-- Octets made of units that are half of no surrogate pair, and of surrogate pairs. -/
inductive WellFormed : Bytes → Prop
  | nil : WellFormed []
  | unit {a b : UInt8} {rest : Bytes} (notLeading : isLeading (unit a b) = false)
      (notTrailing : isTrailing (unit a b) = false) (wellFormed : WellFormed rest) :
      WellFormed (a :: b :: rest)
  | pair {a b c d : UInt8} {rest : Bytes} (leading : isLeading (unit a b) = true)
      (trailing : isTrailing (unit c d) = true) (wellFormed : WellFormed rest) :
      WellFormed (a :: b :: c :: d :: rest)

theorem decodeLossy_nil : decodeLossy [] = [] := by
  rw [decodeLossy]

theorem decodeLossy_unit {a b : UInt8} (hleading : isLeading (unit a b) = false)
    (htrailing : isTrailing (unit a b) = false) (rest : Bytes) :
    decodeLossy (a :: b :: rest) = Char.ofNat (unit a b) :: decodeLossy rest := by
  match rest with
  | [] => simp [decodeLossy, hleading, htrailing]
  | [c] => simp [decodeLossy, hleading, htrailing]
  | c :: d :: rest =>
    rw [decodeLossy]
    simp [hleading, htrailing]

theorem decodeLossy_pair {a b c d : UInt8} (hleading : isLeading (unit a b) = true)
    (htrailing : isTrailing (unit c d) = true) (rest : Bytes) :
    decodeLossy (a :: b :: c :: d :: rest) =
      pair (unit a b) (unit c d) :: decodeLossy rest := by
  rw [decodeLossy]
  simp [hleading, htrailing]

theorem toNat_ofNat {n : Nat} (h : n.isValidChar) : (Char.ofNat n).toNat = n := by
  rw [Char.ofNat, dif_pos h]
  rfl

theorem encodeChar_unit {a b : UInt8} (hleading : isLeading (unit a b) = false)
    (htrailing : isTrailing (unit a b) = false) :
    encodeChar (Char.ofNat (unit a b)) = [a, b] := by
  have hlt := unit_lt a b
  rw [Bool.eq_false_iff, ne_eq, isLeading_iff] at hleading
  rw [Bool.eq_false_iff, ne_eq, isTrailing_iff] at htrailing
  have hvalid : (unit a b).isValidChar := by
    unfold Nat.isValidChar
    omega
  rw [encodeChar, toNat_ofNat hvalid, if_pos hlt, octets_unit]

theorem encodeChar_pair {a b c d : UInt8} (hleading : isLeading (unit a b) = true)
    (htrailing : isTrailing (unit c d) = true) :
    encodeChar (pair (unit a b) (unit c d)) = [a, b, c, d] := by
  rw [isLeading_iff] at hleading
  rw [isTrailing_iff] at htrailing
  have hvalid :
      (0x10000 + (unit a b - 0xD800) * 1024 + (unit c d - 0xDC00)).isValidChar := by
    unfold Nat.isValidChar
    omega
  have hfirst :
      0xD800 + (0x10000 + (unit a b - 0xD800) * 1024 + (unit c d - 0xDC00) - 0x10000) / 1024 =
        unit a b := by omega
  have hsecond :
      0xDC00 + (0x10000 + (unit a b - 0xD800) * 1024 + (unit c d - 0xDC00) - 0x10000) % 1024 =
        unit c d := by omega
  rw [encodeChar, pair, toNat_ofNat hvalid, if_neg (by omega), hfirst, hsecond, octets_unit,
    octets_unit]
  rfl

/-- Nothing is lost when well-formed octets are read. -/
theorem encode_decodeLossy {bs : Bytes} (h : WellFormed bs) : encode (decodeLossy bs) = bs := by
  induction h with
  | nil =>
    rw [decodeLossy_nil]
    rfl
  | unit notLeading notTrailing _ ih =>
    rw [decodeLossy_unit notLeading notTrailing, encode, List.flatMap_cons,
      encodeChar_unit notLeading notTrailing]
    exact congrArg (_ :: _ :: ·) ih
  | pair leading trailing _ ih =>
    rw [decodeLossy_pair leading trailing, encode, List.flatMap_cons,
      encodeChar_pair leading trailing]
    exact congrArg (_ :: _ :: _ :: _ :: ·) ih

theorem eq_of_decodeLossy_eq {bs bs' : Bytes} (h : WellFormed bs) (h' : WellFormed bs')
    (heq : decodeLossy bs = decodeLossy bs') : bs = bs' := by
  rw [← encode_decodeLossy h, heq, encode_decodeLossy h']

/-- What is written is well-formed, whatever the text. -/
theorem wellFormed_encode (cs : List Char) : WellFormed (encode cs) := by
  induction cs with
  | nil => exact .nil
  | cons c cs ih =>
    have hvalid := c.valid
    rw [UInt32.isValidChar, Nat.isValidChar] at hvalid
    change c.toNat < 0xD800 ∨ 0xDFFF < c.toNat ∧ c.toNat < 0x110000 at hvalid
    rw [encode, List.flatMap_cons, encodeChar]
    by_cases hsmall : c.toNat < 0x10000
    · rw [if_pos hsmall]
      refine .unit ?_ ?_ ih
      · rw [unit_octets hsmall, Bool.eq_false_iff, ne_eq, isLeading_iff]
        omega
      · rw [unit_octets hsmall, Bool.eq_false_iff, ne_eq, isTrailing_iff]
        omega
    · rw [if_neg hsmall]
      refine .pair ?_ ?_ ih
      · rw [unit_octets (by omega), isLeading_iff]
        omega
      · rw [unit_octets (by omega), isTrailing_iff]
        omega

/-- Well-formed octets are those of the texts. -/
theorem wellFormed_iff {bs : Bytes} : WellFormed bs ↔ ∃ cs, bs = encode cs := by
  constructor
  · intro h
    exact ⟨decodeLossy bs, (encode_decodeLossy h).symm⟩
  · rintro ⟨cs, rfl⟩
    exact wellFormed_encode cs

end ILDump.Utf16
