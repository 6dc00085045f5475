import ILDump.Proofs.Text.Escapes

/-!
# Reading string literals back

Five characters are replaced in a string literal, one after the other and each through the whole
text. The backslash is replaced first and no letter that is put in is replaced later, so it makes
no difference to replace them all in one pass. Undoing the escapes from left to right then gives
the text, and two texts never have the same literal.
-/

namespace ILDump.Quoted

/-- The replacements that make a string literal, in this order. -/
def literalReplacements : List (Char × Char) :=
  [('\\', '\\'), ('"', '"'), ('\n', 'n'), ('\r', 'r'), ('\t', 't')]

theorem literalLetter?_eq_lookup (c : Char) :
    literalLetter? c = literalReplacements.lookup c := by
  unfold literalLetter?
  split
  · rfl
  · rfl
  · rfl
  · rfl
  · rfl
  · next hback hquote hfeed hreturn htab =>
    refine (lookup_eq_none ?_).symm
    simpa [literalReplacements] using
      ⟨Ne.symm hback, Ne.symm hquote, Ne.symm hfeed, Ne.symm hreturn, Ne.symm htab⟩

theorem escape_literalLetter? (cs : List Char) :
    escape literalLetter? cs = replaceEach literalReplacements cs := by
  have hapart : literalReplacements.Pairwise LeavesAlone := by
    simp [literalReplacements, LeavesAlone]
  rw [replaceEach_eq_escape hapart]
  congr 1
  funext c
  exact literalLetter?_eq_lookup c

/-- A letter stands for the character that it is written for. -/
theorem literalChar?_of_letter {c l : Char} (h : literalLetter? c = some l) :
    literalChar? l = some c := by
  unfold literalLetter? at h
  split at h <;> cases h <;> rfl

theorem unescape_literal (cs : List Char) :
    unescape literalChar? (escape literalLetter? cs) = some cs :=
  unescape_escape (fun _ _ => literalChar?_of_letter) (by decide) cs

theorem toList_literal (s : String) :
    (literal s).toList = '"' :: escape literalLetter? s.toList ++ ['"'] := by
  simp [literal]

/-- A character that is replaced by a letter, and is neither the backslash nor a letter itself, is
    in no escaped text. -/
theorem not_mem_escape {c : Char} (hback : c ≠ '\\') (hreplaced : literalLetter? c ≠ none)
    (hletter : literalChar? c = none) (cs : List Char) : c ∉ escape literalLetter? cs := by
  intro hc
  induction cs with
  | nil => cases hc
  | cons d cs ih =>
    rw [escape] at hc
    cases hd : literalLetter? d with
    | some l =>
      have hl : c ≠ l := by
        rintro rfl
        rw [literalChar?_of_letter hd] at hletter
        cases hletter
      rw [hd] at hc
      simp only [List.mem_cons] at hc
      rcases hc with hc | hc | hc
      · exact hback hc
      · exact hl hc
      · exact ih hc
    | none =>
      rw [hd] at hc
      rcases List.mem_cons.mp hc with rfl | hc
      · exact hreplaced hd
      · exact ih hc

/-- What stands between the quotes of the literal of a text. -/
structure StandsFor (inner : List Char) (s : String) : Prop where
  written : (literal s).toList = '"' :: inner ++ ['"']
  noFeed : '\n' ∉ inner
  noReturn : '\r' ∉ inner
  noTab : '\t' ∉ inner
  /-- No quote ends the literal early, and no backslash takes the quote at its end. -/
  enclosed : Enclosed '"' inner
  replaced : inner = replaceEach literalReplacements s.toList
  read : unescape literalChar? inner = some s.toList

theorem standsFor_escape (s : String) : StandsFor (escape literalLetter? s.toList) s where
  written := toList_literal s
  noFeed := not_mem_escape (by decide) (by decide) (by decide) s.toList
  noReturn := not_mem_escape (by decide) (by decide) (by decide) s.toList
  noTab := not_mem_escape (by decide) (by decide) (by decide) s.toList
  enclosed := enclosed_escape (by decide) (by decide) s.toList
  replaced := escape_literalLetter? s.toList
  read := unescape_literal s.toList

theorem literal_injective : Function.Injective literal := by
  intro s s' h
  have hlists := congrArg String.toList h
  rw [toList_literal, toList_literal] at hlists
  have hinner := List.append_cancel_right (List.cons.inj hlists).2
  have hread := unescape_literal s.toList
  rw [hinner, unescape_literal] at hread
  exact String.toList_inj.mp (Option.some.inj hread).symm

/-- **String literals read back.** Every literal is a text between two double quotes which has no
    line break, no tab and no bare quote in it and from which the escapes are undone without loss;
    and replacing one character after the other is the same as escaping in one pass. So different
    texts have different literals. -/
theorem literals_read_back :
    (∀ s, ∃ inner, StandsFor inner s) ∧ Function.Injective literal ∧
      ∀ cs, replaceEach literalReplacements cs = escape literalLetter? cs :=
  ⟨fun s => ⟨_, standsFor_escape s⟩, literal_injective, fun cs => (escape_literalLetter? cs).symm⟩

/-- Runs of backslashes before a quote, a letter and the end. -/
example :
    literal "\\\"\\\\n\n\\" = "\"\\\\\\\"\\\\\\\\n\\n\\\\\"" := by decide

end ILDump.Quoted
