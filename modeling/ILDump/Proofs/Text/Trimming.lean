import ILDump.Unicode.Blank
import Mathlib.Data.List.DropRight

/-!
# Trimmed texts

A text that neither begins nor ends with a character of a class stays as it is when the characters
of the class are dropped from its ends, and it is found again when some of them are put around it.
-/

namespace ILDump.Unicode

variable {p : Char → Bool} {cs front back : List Char}

/-- Texts that neither begin nor end with a character of a class. -/
structure Trimmed (p : Char → Bool) (cs : List Char) : Prop where
  first : ∀ c ∈ cs.head?, p c = false
  last : ∀ c ∈ cs.getLast?, p c = false

theorem trimWhile_eq (p : Char → Bool) (cs : List Char) :
    trimWhile p cs = (cs.dropWhile p).rdropWhile p :=
  rfl

theorem mem_of_mem_trimWhile {c : Char} (h : c ∈ trimWhile p cs) : c ∈ cs :=
  (List.dropWhile_suffix p).mem ((List.rdropWhile_prefix p _).mem h)

theorem dropWhile_of_head? (h : ∀ c ∈ cs.head?, p c = false) : cs.dropWhile p = cs := by
  cases cs with
  | nil => rfl
  | cons c cs => exact List.dropWhile_cons_of_neg (by simpa using h c rfl)

theorem rdropWhile_of_getLast? (h : ∀ c ∈ cs.getLast?, p c = false) : cs.rdropWhile p = cs := by
  rw [List.rdropWhile, dropWhile_of_head? (by simpa using h), List.reverse_reverse]

theorem rdropWhile_append (h : ∀ c ∈ back, p c) : (cs ++ back).rdropWhile p = cs.rdropWhile p := by
  rw [List.rdropWhile, List.reverse_append, List.dropWhile_append_of_pos (by simpa using h)]
  rfl

/-- Nothing is dropped only if there is nothing to drop: dropping from either end makes a text
    shorter. -/
theorem trimmed_of_trimWhile_eq (h : trimWhile p cs = cs) : Trimmed p cs := by
  have hfront : cs.dropWhile p = cs := by
    refine (List.dropWhile_suffix p).eq_of_length_le ?_
    calc cs.length = ((cs.dropWhile p).rdropWhile p).length := by rw [← trimWhile_eq, h]
      _ ≤ (cs.dropWhile p).length := (List.rdropWhile_prefix p _).length_le
  have hback : cs.rdropWhile p = cs := by rwa [trimWhile_eq, hfront] at h
  constructor
  · intro c hc
    cases cs with
    | nil => cases hc
    | cons d cs =>
      obtain rfl := Option.some.inj hc
      have hfirst := List.dropWhile_eq_self_iff.mp hfront (Nat.succ_pos _)
      exact Bool.eq_false_iff.mpr hfirst
  · intro c hc
    obtain ⟨hne, hlast⟩ := List.mem_getLast?_eq_getLast hc
    rw [hlast]
    exact Bool.eq_false_iff.mpr (List.rdropWhile_eq_self_iff.mp hback hne)

theorem trimmed_of_trim_eq {text : String} (h : trim text = text) :
    Trimmed isBlank text.toList := by
  rw [← String.toList_inj, trim, String.toList_ofList] at h
  exact trimmed_of_trimWhile_eq h

theorem Trimmed.singleton {c : Char} (h : p c = false) : Trimmed p [c] where
  first := by simpa using h
  last := by simpa using h

theorem Trimmed.between {cs cs' : List Char} (h : Trimmed p cs) (h' : Trimmed p cs')
    (hne : cs ≠ []) (hne' : cs' ≠ []) (middle : List Char) : Trimmed p (cs ++ middle ++ cs') where
  first := by
    rw [List.append_assoc, List.head?_append_of_ne_nil _ hne]
    exact h.first
  last := by
    rw [List.getLast?_append_of_ne_nil _ hne']
    exact h'.last

theorem trimWhile_surrounded (hfront : ∀ c ∈ front, p c) (hback : ∀ c ∈ back, p c)
    (hne : cs ≠ []) (h : Trimmed p cs) : trimWhile p (front ++ cs ++ back) = cs := by
  have hfirst : ∀ c ∈ (cs ++ back).head?, p c = false := by
    intro c hc
    rw [List.head?_append_of_ne_nil _ hne] at hc
    exact h.first c hc
  rw [trimWhile_eq, List.append_assoc, List.dropWhile_append_of_pos hfront,
    dropWhile_of_head? hfirst, rdropWhile_append hback, rdropWhile_of_getLast? h.last]

/-- What is trimmed begins with the first character that is not of the class. -/
theorem exists_trimWhile_eq_cons {c : Char} (hfront : ∀ d ∈ front, p d) (hc : p c = false)
    (rest : List Char) : ∃ rest', trimWhile p (front ++ c :: rest) = c :: rest' := by
  have hdrop : (front ++ c :: rest).dropWhile p = c :: rest := by
    rw [List.dropWhile_append_of_pos hfront]
    exact dropWhile_of_head? (by simpa using hc)
  have hstart : (c :: rest).rdropWhile p <+: c :: rest := List.rdropWhile_prefix p _
  rw [trimWhile_eq, hdrop]
  cases hrest : (c :: rest).rdropWhile p with
  | nil =>
    have hall := List.rdropWhile_eq_nil_iff.mp hrest c List.mem_cons_self
    rw [hc] at hall
    cases hall
  | cons d rest' =>
    rw [hrest, List.cons_prefix_cons] at hstart
    exact ⟨rest', by rw [hstart.1]⟩

end ILDump.Unicode
