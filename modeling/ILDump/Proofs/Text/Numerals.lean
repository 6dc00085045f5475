import ILDump.Text.Digits
import Mathlib.Algebra.Group.Nat.Defs
import Mathlib.Data.List.Basic

/-!
# Numerals

Numerals have digits in them and, if below zero, a sign; hexadecimal ones have letters too. So no
other character comes into a text with a number. The digits tell the number, and zeros filled in
before them do not count.
-/

namespace ILDump

theorem isDigit_of_mem_toString {n : Nat} {c : Char} (h : c ∈ (toString n).toList) :
    c.isDigit := by
  rw [Nat.toString_eq_repr, Nat.toList_repr] at h
  exact Nat.isDigit_of_mem_toDigits (by decide) (by decide) h

theorem not_mem_toString {n : Nat} {c : Char} (h : c.isDigit = false) :
    c ∉ (toString n).toList := by
  intro hmem
  rw [isDigit_of_mem_toString hmem] at h
  cases h

namespace Digits

variable {letters : LetterCase}

theorem isAlphanum_digit {d : Nat} (h : d < 16) : (digit letters d).isAlphanum := by
  revert d
  cases letters <;> decide

/-- What holds of all digits holds of every character of a numeral. -/
theorem forall_mem_hexWord {P : Char → Prop} (hdigit : ∀ d, d < 16 → P (digit letters d))
    {width n : Nat} {c : Char} (h : c ∈ hexWord letters width n) : P c := by
  induction width generalizing n with
  | zero => cases h
  | succ width ih =>
    rw [hexWord, List.mem_append, List.mem_singleton] at h
    rcases h with h | rfl
    · exact ih h
    · exact hdigit _ (Nat.mod_lt n (by decide))

theorem isAlphanum_of_mem_hexWord {width n : Nat} {c : Char} (h : c ∈ hexWord letters width n) :
    c.isAlphanum :=
  forall_mem_hexWord (P := fun c => c.isAlphanum = true) (fun _ => isAlphanum_digit) h

theorem isAlphanum_of_mem_hexDigits {n : Nat} {c : Char} (h : c ∈ hexDigits letters n) :
    c.isAlphanum := by
  induction n using hexDigits.induct with
  | case1 n hn =>
    rw [hexDigits, if_pos hn, List.mem_singleton] at h
    rw [h]
    exact isAlphanum_digit hn
  | case2 n hn ih =>
    rw [hexDigits, if_neg hn, List.mem_append, List.mem_singleton] at h
    rcases h with h | rfl
    · exact ih h
    · exact isAlphanum_digit (Nat.mod_lt n (by decide))

theorem toList_hex (width n : Nat) :
    (hex letters width n).toList = (hexDigits letters n).leftpad width '0' := by
  rw [hex, String.toList_ofList]

theorem isAlphanum_of_mem_hex {width n : Nat} {c : Char} (h : c ∈ (hex letters width n).toList) :
    c.isAlphanum := by
  rw [toList_hex, List.leftpad, List.mem_append] at h
  rcases h with h | h
  · rw [List.eq_of_mem_replicate h]
    decide
  · exact isAlphanum_of_mem_hexDigits h

theorem mem_hexInt {width : Nat} {n : Int} {c : Char} (h : c ∈ (hexInt letters width n).toList) :
    c = '-' ∨ c.isAlphanum := by
  cases n with
  | ofNat n => exact .inr (isAlphanum_of_mem_hex h)
  | negSucc n =>
    rw [hexInt, String.toList_append, List.mem_append] at h
    rcases h with h | h
    · exact .inl (List.mem_singleton.mp h)
    · exact .inr (isAlphanum_of_mem_hex h)

theorem digitValue?_digit {d : Nat} (h : d < 16) : digitValue? (digit letters d) = some d := by
  revert d
  cases letters <;> decide

/-- The number that digits stand for, most significant first. -/
def value (cs : List Char) : Nat :=
  cs.foldl (fun n c => 16 * n + (digitValue? c).getD 0) 0

theorem value_concat (cs : List Char) (c : Char) :
    value (cs ++ [c]) = 16 * value cs + (digitValue? c).getD 0 := by
  rw [value, List.foldl_append]
  rfl

theorem value_hexDigits (n : Nat) : value (hexDigits letters n) = n := by
  fun_induction hexDigits letters n with
  | case1 n h =>
    simp [value, digitValue?_digit h]
  | case2 n h ih =>
    rw [value_concat, ih, digitValue?_digit (Nat.mod_lt _ (by decide)), Option.getD_some]
    exact Nat.div_add_mod n 16

/-- A numeral of fixed width keeps the last digits. -/
theorem value_hexWord (width n : Nat) : value (hexWord letters width n) = n % 16 ^ width := by
  induction width generalizing n with
  | zero =>
    rw [Nat.pow_zero, Nat.mod_one]
    rfl
  | succ width ih =>
    rw [hexWord, value_concat, ih, digitValue?_digit (Nat.mod_lt n (by decide)), Option.getD_some,
      Nat.pow_succ', Nat.mod_mul, Nat.add_comm]

/-- The digits of numerals with capital letters. -/
def capitals : List Char :=
  ['0', '1', '2', '3', '4', '5', '6', '7', '8', '9', 'A', 'B', 'C', 'D', 'E', 'F']

theorem mem_capitals_digit {d : Nat} (h : d < 16) : digit .upper d ∈ capitals := by
  revert d
  decide

theorem mem_capitals_of_mem_hexWord {width n : Nat} {c : Char} (h : c ∈ hexWord .upper width n) :
    c ∈ capitals :=
  forall_mem_hexWord (fun _ => mem_capitals_digit) h

/-- Leading zeros do not count. -/
theorem value_leftpad (width : Nat) (cs : List Char) : value (cs.leftpad width '0') = value cs := by
  have hzeros (k : Nat) : value (List.replicate k '0') = 0 := by
    induction k with
    | zero => rfl
    | succ k ih =>
      rw [List.replicate_succ', value_concat, ih]
      rfl
  have happend : value (List.replicate (width - cs.length) '0' ++ cs) =
      cs.foldl (fun n c => 16 * n + (digitValue? c).getD 0)
        (value (List.replicate (width - cs.length) '0')) := by
    rw [value, List.foldl_append]
    rfl
  rw [List.leftpad, happend, hzeros]
  rfl

theorem hex_inj {width m n : Nat} (h : hex letters width m = hex letters width n) : m = n := by
  have hvalue := congrArg (fun s => value s.toList) h
  simpa only [toList_hex, value_leftpad, value_hexDigits] using hvalue

/-- A sign is no digit. -/
theorem hexInt_inj {width : Nat} {m n : Int} (h : hexInt letters width m = hexInt letters width n) :
    m = n := by
  have hsign (width k k' : Nat) {w : Nat} : hex letters width k ≠ "-" ++ hex letters w k' := by
    intro heq
    have hmem : '-' ∈ (hex letters width k).toList := by
      rw [heq]
      simp
    exact absurd (isAlphanum_of_mem_hex hmem) (by decide)
  cases m with
  | ofNat m =>
    cases n with
    | ofNat n => rw [hex_inj h]
    | negSucc n => exact absurd h (hsign _ _ _)
  | negSucc m =>
    cases n with
    | ofNat n => exact absurd h.symm (hsign _ _ _)
    | negSucc n =>
      have hsame : m + 1 = n + 1 := hex_inj (String.append_right_inj "-" |>.mp h)
      rw [Nat.succ.inj hsame]

end Digits

theorem mem_toString_int {n : Int} {c : Char} (h : c ∈ (toString n).toList) :
    c = '-' ∨ c.isDigit := by
  cases n with
  | ofNat n => exact .inr (isDigit_of_mem_toString h)
  | negSucc n =>
    have htext : toString (Int.negSucc n) = "-" ++ toString (n + 1) := rfl
    rw [htext, String.toList_append, List.mem_append] at h
    rcases h with h | h
    · exact .inl (List.mem_singleton.mp h)
    · exact .inr (isDigit_of_mem_toString h)

end ILDump
