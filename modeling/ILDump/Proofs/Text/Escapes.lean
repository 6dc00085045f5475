import Mathlib.Data.List.Basic
import ILDump.Text.Quoted

/-!
# Escaped texts

Texts are escaped in two ways that come to the same: character by character, and by one
replacement after the other, each through the whole text. The second way needs an order of the
replacements in which none of them finds anything in what an earlier one has put there; in
particular the backslash has to come first.

Between two quotes an escaped text neither ends early nor swallows the quote behind it: every
quote in it has a backslash in front, and every backslash has a character behind it.
-/

namespace ILDump.Quoted

/-! ### Replacements one after the other -/

/-- A backslash and a letter in the place of one character, wherever it stands. -/
def replace (c l : Char) (cs : List Char) : List Char :=
  cs.flatMap fun d => if d = c then ['\\', l] else [d]

/-- Replacements of several characters, in the order of the list. -/
def replaceEach (replacements : List (Char × Char)) (cs : List Char) : List Char :=
  replacements.foldl (fun text r => replace r.1 r.2 text) cs

/-- One replacement leaves alone what another one has put in before it. -/
def LeavesAlone (earlier later : Char × Char) : Prop :=
  later.1 ≠ '\\' ∧ later.1 ≠ earlier.2

theorem escape_eq_flatMap (letter? : Char → Option Char) (cs : List Char) :
    escape letter? cs =
      cs.flatMap fun c => match letter? c with
        | some l => ['\\', l]
        | none => [c] := by
  induction cs with
  | nil => rfl
  | cons c cs ih =>
    rw [escape, List.flatMap_cons, ← ih]
    cases letter? c <;> rfl

theorem lookup_eq_none {replacements : List (Char × Char)} {c : Char}
    (h : ∀ r ∈ replacements, r.1 ≠ c) : replacements.lookup c = none := by
  rw [List.lookup_eq_none_iff]
  intro r hr
  exact bne_iff_ne.mpr (h r hr).symm

/-- By induction on the replacements: what the first one has put in is left alone by the others,
    and every other character is left to them. -/
theorem replaceEach_eq_escape {replacements : List (Char × Char)}
    (h : replacements.Pairwise LeavesAlone) (cs : List Char) :
    replaceEach replacements cs = escape (fun c => replacements.lookup c) cs := by
  induction replacements generalizing cs with
  | nil =>
    rw [escape_eq_flatMap]
    exact (List.flatMap_singleton' cs).symm
  | cons r replacements ih =>
    obtain ⟨hfirst, hothers⟩ := List.pairwise_cons.mp h
    have hback : replacements.lookup '\\' = none := lookup_eq_none fun q hq => (hfirst q hq).1
    have hletter : replacements.lookup r.2 = none := lookup_eq_none fun q hq => (hfirst q hq).2
    have hstep : replaceEach (r :: replacements) cs =
        replaceEach replacements (replace r.1 r.2 cs) := rfl
    rw [hstep, ih hothers, escape_eq_flatMap, escape_eq_flatMap, replace, List.flatMap_assoc]
    congr 1
    funext c
    by_cases hc : c = r.1
    · rw [if_pos hc, List.lookup_cons, beq_iff_eq.mpr hc]
      simp [hback, hletter]
    · rw [if_neg hc, List.lookup_cons, beq_eq_false_iff_ne.mpr hc]
      simp

/-! ### Between quotes -/

/-- Texts that can stand between two quotes: each quote has a backslash in front that is not
    itself escaped, and no backslash is the last character. -/
inductive Enclosed (quote : Char) : List Char → Prop
  | nil : Enclosed quote []
  | plain {c : Char} {cs : List Char} (hback : c ≠ '\\') (hquote : c ≠ quote)
      (rest : Enclosed quote cs) : Enclosed quote (c :: cs)
  | pair {l : Char} {cs : List Char} (rest : Enclosed quote cs) : Enclosed quote ('\\' :: l :: cs)

theorem enclosed_escape {quote : Char} {letter? : Char → Option Char}
    (hback : letter? '\\' ≠ none) (hquote : letter? quote ≠ none) (cs : List Char) :
    Enclosed quote (escape letter? cs) := by
  induction cs with
  | nil => exact .nil
  | cons c cs ih =>
    rw [escape]
    cases h : letter? c with
    | some l => exact .pair ih
    | none => exact .plain (fun e => hback (e ▸ h)) (fun e => hquote (e ▸ h)) ih

/-- Escaping brings in backslashes and letters only. -/
theorem mem_escape {letter? : Char → Option Char} {c : Char} {cs : List Char}
    (hc : c ∈ escape letter? cs) : c ∈ cs ∨ c = '\\' ∨ ∃ d, letter? d = some c := by
  rw [escape_eq_flatMap, List.mem_flatMap] at hc
  obtain ⟨d, hd, hc⟩ := hc
  cases h : letter? d with
  | some l =>
    rw [h, List.mem_cons, List.mem_singleton] at hc
    rcases hc with hc | rfl
    · exact .inr (.inl hc)
    · exact .inr (.inr ⟨d, h⟩)
  | none =>
    rw [h, List.mem_singleton] at hc
    exact .inl (hc ▸ hd)

end ILDump.Quoted
