import ILDump.Module.Constant
import ILDump.Proofs.Text.Joined
import ILDump.Proofs.Text.Literals
import ILDump.Proofs.Text.Numerals
import ILDump.Proofs.Text.Utf16

/-!
# Constants and their texts

The text of a constant tells its element type: by the word before the first parenthesis, or by
the quote of a string. For one type the value is told by the digits, which have a fixed number for
each size, or by the literal, from which the octets of a well-formed string are found again. So
constants that have the form of their types are told apart by their texts.
-/

namespace ILDump

/-! ### Numbers of bytes -/

namespace Bytes

theorem number_lt (bs : Bytes) : number bs < 256 ^ bs.length := by
  induction bs with
  | nil => decide
  | cons b bs ih =>
    have hb := b.toNat_lt
    rw [number, List.length_cons, Nat.pow_succ]
    omega

/-- Bytes of one length are told apart by their numbers. -/
theorem eq_of_number_eq {bs bs' : Bytes} (hlength : bs.length = bs'.length)
    (h : number bs = number bs') : bs = bs' := by
  induction bs generalizing bs' with
  | nil => exact (List.length_eq_zero_iff.mp hlength.symm).symm
  | cons b bs ih =>
    cases bs' with
    | nil => cases hlength
    | cons b' bs' =>
      have hb := b.toNat_lt
      have hb' := b'.toNat_lt
      rw [number, number] at h
      have hfirst : b = b' := UInt8.toNat_inj.mp (by omega)
      have hrest : bs = bs' := ih (Nat.succ.inj hlength) (by omega)
      rw [hfirst, hrest]

end Bytes

namespace Constant

open Digits (capitals value)

/-! ### Values of the right form -/

/-- Constants whose value is what their type asks for: so many bytes as a number has, a byte that
    is a truth value, a null reference, or a well-formed string. -/
inductive Whole : Nat → Bytes → Prop
  | integer {elementType size : Nat} {name : String} {value : Bytes}
      (type : integerType? elementType = some (name, size)) (length : value.length = size) :
      Whole elementType value
  | character {value : Bytes} (length : value.length = 2) : Whole 0x03 value
  | boolean {b : UInt8} (zeroOrOne : b = 0 ∨ b = 1) : Whole 0x02 [b]
  | null : Whole 0x12 [0, 0, 0, 0]
  | string {value : Bytes} (wellFormed : Utf16.WellFormed value) : Whole 0x0E value

variable {elementType size : Nat} {name : String} {value : Bytes}

theorem text_integer (htype : integerType? elementType = some (name, size))
    (hlength : size ≤ value.length) : text elementType value = integerText name size value := by
  unfold text
  rw [htype]
  exact if_pos hlength

theorem text_character (hlength : value.length = 2) :
    text 0x03 value = integerText "char" 2 value := by
  match value, hlength with
  | [a, b], _ => rfl

theorem text_string (value : Bytes) :
    text 0x0E value = Quoted.literal (String.ofList (Utf16.decodeLossy value)) :=
  rfl

/-! ### The type of a text -/

/-- The words that stand for element types. -/
def typeWords : List (String × Nat) := [
  ("bool", 0x02), ("char", 0x03), ("int8", 0x04), ("uint8", 0x05), ("int16", 0x06),
  ("uint16", 0x07), ("int32", 0x08), ("uint32", 0x09), ("int64", 0x0A), ("uint64", 0x0B),
  ("nullref", 0x12)]

/-- The element type that a text tells: by a quote in front, or by the word before the first
    parenthesis. -/
def typeOf? (text : String) : Option Nat :=
  if text.toList.head? = some '"' then some 0x0E
  else typeWords.lookup (String.ofList (text.toList.takeWhile (· ≠ '(')))

theorem typeOf?_word {word : String × Nat} (hword : word ∈ typeWords) (rest : String) :
    typeOf? (word.1 ++ "(" ++ rest) = some word.2 := by
  have hfacts : ∀ w ∈ typeWords, '(' ∉ w.1.toList ∧ w.1.toList ≠ [] ∧
      w.1.toList.head? ≠ some '"' ∧ typeWords.lookup w.1 = some w.2 := by decide
  obtain ⟨hplain, hne, hquote, hlookup⟩ := hfacts word hword
  have htext : (word.1 ++ "(" ++ rest).toList = word.1.toList ++ '(' :: rest.toList := by simp
  have htake : (word.1.toList ++ '(' :: rest.toList).takeWhile (· ≠ '(') = word.1.toList :=
    takeWhile_append_of_head? hplain (by simp)
  rw [typeOf?, htext, List.head?_append_of_ne_nil _ hne, if_neg hquote, htake, String.ofList_toList,
    hlookup]

theorem mem_typeWords_of_integerType? (h : integerType? elementType = some (name, size)) :
    (name, elementType) ∈ typeWords := by
  unfold integerType? at h
  split at h <;> cases h <;> decide

theorem typeOf?_integerText (hword : (name, elementType) ∈ typeWords) :
    typeOf? (integerText name size value) = some elementType := by
  have htext : integerText name size value = name ++ "(" ++ ("0x" ++ String.ofList
      (Digits.hexWord .upper (2 * size) (Bytes.number (value.take size))) ++ ")") := by
    rw [integerText, show "(0x" = "(" ++ "0x" from rfl]
    simp only [String.append_assoc]
  rw [htext]
  exact typeOf?_word hword _

/-- Texts of constants tell the type. -/
theorem typeOf?_text (h : Whole elementType value) :
    typeOf? (text elementType value) = some elementType := by
  cases h with
  | integer type length =>
    rw [text_integer type (Nat.le_of_eq length.symm)]
    exact typeOf?_integerText (mem_typeWords_of_integerType? type)
  | character length =>
    rw [text_character length]
    exact typeOf?_integerText (by decide)
  | boolean zeroOrOne => rcases zeroOrOne with rfl | rfl <;> decide
  | null => decide
  | string wellFormed =>
    rw [text_string, typeOf?, Quoted.toList_literal]
    rfl

/-! ### The value of a text -/

/-- The digits of a number: two for each byte, and their value is that of the bytes. -/
theorem value_digits (hlength : size ≤ value.length) :
    Digits.value (Digits.hexWord .upper (2 * size) (Bytes.number (value.take size))) =
      Bytes.number (value.take size) := by
  have hlt := Bytes.number_lt (value.take size)
  rw [List.length_take_of_le hlength] at hlt
  rw [Digits.value_hexWord, Nat.pow_mul]
  exact Nat.mod_eq_of_lt hlt

theorem eq_of_integerText_eq {value' : Bytes} (hlength : value.length = size)
    (hlength' : value'.length = size)
    (h : integerText name size value = integerText name size value') : value = value' := by
  rw [integerText, integerText] at h
  have hdigits := String.ofList_inj.mp (String.append_right_inj _ |>.mp
    (String.append_left_inj _ |>.mp h))
  have hnumbers := congrArg Digits.value hdigits
  rw [value_digits (Nat.le_of_eq hlength.symm), value_digits (Nat.le_of_eq hlength'.symm),
    List.take_of_length_le (Nat.le_of_eq hlength),
    List.take_of_length_le (Nat.le_of_eq hlength')] at hnumbers
  exact Bytes.eq_of_number_eq (hlength.trans hlength'.symm) hnumbers

theorem string_eq_of_text_eq {value' : Bytes} (h : Utf16.WellFormed value)
    (h' : Utf16.WellFormed value') (heq : text 0x0E value = text 0x0E value') : value = value' := by
  rw [text_string, text_string] at heq
  exact Utf16.eq_of_decodeLossy_eq h h' (String.ofList_inj.mp (Quoted.literal_injective heq))

theorem boolean_eq_of_text_eq {b b' : UInt8} (h : b = 0 ∨ b = 1) (h' : b' = 0 ∨ b' = 1)
    (heq : text 0x02 [b] = text 0x02 [b']) : b = b' := by
  rcases h with rfl | rfl <;> rcases h' with rfl | rfl
  · rfl
  · exact absurd heq (by decide)
  · exact absurd heq (by decide)
  · rfl

/-- Constants of one type are told apart by their texts. -/
theorem eq_of_text_eq {value' : Bytes} (h : Whole elementType value)
    (h' : Whole elementType value') (heq : text elementType value = text elementType value') :
    value = value' := by
  cases h with
  | integer type length =>
    cases h' with
    | integer type' length' =>
      rw [type] at type'
      cases type'
      rw [text_integer type (Nat.le_of_eq length.symm),
        text_integer type (Nat.le_of_eq length'.symm)] at heq
      exact eq_of_integerText_eq length length' heq
    | character => cases type
    | boolean => cases type
    | null => cases type
    | string => cases type
  | character length =>
    cases h' with
    | integer type' => cases type'
    | character length' =>
      rw [text_character length, text_character length'] at heq
      exact eq_of_integerText_eq length length' heq
  | boolean zeroOrOne =>
    cases h' with
    | integer type' => cases type'
    | boolean zeroOrOne' => rw [boolean_eq_of_text_eq zeroOrOne zeroOrOne' heq]
  | null =>
    cases h' with
    | integer type' => cases type'
    | null => rfl
  | string wellFormed =>
    cases h' with
    | integer type' => cases type'
    | string wellFormed' => exact string_eq_of_text_eq wellFormed wellFormed' heq

/-- **Constants are told apart by their texts**, type and value, if the value is what the type
    asks for. The number in the text of an integer has two capital digits for each byte of the
    type, and its value is that of so many bytes from the front, however many there are. -/
theorem text_tells_constant :
    (∀ {elementType elementType' : Nat} {value value' : Bytes}, Whole elementType value →
      Whole elementType' value' → text elementType value = text elementType' value' →
      elementType = elementType' ∧ value = value') ∧
    ∀ (elementType size : Nat) (name : String) (value : Bytes),
      integerType? elementType = some (name, size) → size ≤ value.length →
      ∃ digits, text elementType value = name ++ "(0x" ++ String.ofList digits ++ ")" ∧
        digits.length = 2 * size ∧ (∀ c ∈ digits, c ∈ Digits.capitals) ∧
        Digits.value digits = Bytes.number (value.take size) := by
  constructor
  · intro elementType elementType' value value' h h' heq
    have htype := typeOf?_text h
    rw [heq, typeOf?_text h'] at htype
    obtain rfl := Option.some.inj htype
    exact ⟨rfl, eq_of_text_eq h h' heq⟩
  · intro elementType size name value htype hlength
    exact ⟨_, text_integer htype hlength, Digits.length_hexWord _ _ _,
      fun _ => Digits.mem_capitals_of_mem_hexWord, value_digits hlength⟩

/-- Two types with the same bytes, two strings of which one has a surrogate pair, and a number
    with bytes left over. -/
theorem text_tells_constant_sample :
    Whole 0x06 [0xFF, 0xFF] ∧ Whole 0x03 [0xFF, 0xFF] ∧
      text 0x06 [0xFF, 0xFF] ≠ text 0x03 [0xFF, 0xFF] ∧
    Whole 0x0E [0x3D, 0xD8, 0x00, 0xDE] ∧ Whole 0x0E [0x5C, 0x00, 0x6E, 0x00] ∧
      text 0x0E [0x3D, 0xD8, 0x00, 0xDE] ≠ text 0x0E [0x5C, 0x00, 0x6E, 0x00] ∧
    ∃ digits, text 0x06 [0x34, 0xA2, 0x7F] = "int16" ++ "(0x" ++ String.ofList digits ++ ")" ∧
      digits.length = 4 ∧ Digits.value digits = 0xA234 := by
  have hshort : Whole 0x06 [0xFF, 0xFF] := .integer rfl rfl
  have hchar : Whole 0x03 [0xFF, 0xFF] := .character rfl
  have hpair : Whole 0x0E [0x3D, 0xD8, 0x00, 0xDE] :=
    .string (.pair (by decide) (by decide) .nil)
  have hescaped : Whole 0x0E [0x5C, 0x00, 0x6E, 0x00] :=
    .string (.unit (by decide) (by decide) (.unit (by decide) (by decide) .nil))
  obtain ⟨digits, htext, hlength, -, hvalue⟩ :=
    text_tells_constant.2 0x06 2 "int16" [0x34, 0xA2, 0x7F] rfl (by decide)
  refine ⟨hshort, hchar, fun h => ?_, hpair, hescaped, fun h => ?_, digits, htext, hlength, hvalue⟩
  · exact absurd (text_tells_constant.1 hshort hchar h).1 (by decide)
  · exact absurd (text_tells_constant.1 hpair hescaped h).2 (by decide)

end Constant

end ILDump
