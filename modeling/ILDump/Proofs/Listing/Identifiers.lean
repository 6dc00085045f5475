import ILDump.Listing.Identifier
import ILDump.Proofs.Text.Escapes
import ILDump.Proofs.Text.Pieces

/-!
# Reading identifiers back

The two forms of an identifier do not overlap: a name that stands as it is has no apostrophe, and
a quoted one begins with an apostrophe. So the first character tells how to read, and undoing the
escapes gives the name. Nothing is assumed of the classification of characters but that the
apostrophe and the backslash are not letters or digits.

A name with dots is read part by part. Its parts have no dots, and neither has what they are
written as, since quoting brings in apostrophes and backslashes only; so the dots of the text
are those of the name.
-/

namespace ILDump.Identifier

variable {k : Classes}

/-- The name that an identifier stands for. What begins with an apostrophe has to end with one,
    and the escapes between them are undone; any other text is the name itself. -/
def read? (text : String) : Option String :=
  match text.toList with
  | '\'' :: rest =>
    if rest.getLast? = some '\'' then
      (Quoted.unescape Quoted.identifierLetter? rest.dropLast).map String.ofList
    else none
  | _ => some text

/-- The parts of a text between its dots. -/
def parts (text : String) : List String :=
  (text.toList.splitOn '.').map String.ofList

/-! ### The two forms -/

theorem all_of_isPlain {cs : List Char} (h : isPlain k cs) :
    cs = ".ctor".toList ∨ cs = ".cctor".toList ∨
      ∀ c ∈ cs, k.isAlphanumeric c ∨ isMark c := by
  cases cs with
  | nil => exact .inr (.inr fun _ hc => absurd hc List.not_mem_nil)
  | cons c cs =>
    rw [isPlain] at h
    split at h
    · exact absurd h Bool.false_ne_true
    split at h
    · rw [Bool.or_eq_true, beq_iff_eq, beq_iff_eq] at h
      exact h.imp_right .inl
    split at h
    · exact absurd h Bool.false_ne_true
    · rw [List.all_eq_true] at h
      exact .inr (.inr fun d hd => Bool.or_eq_true_iff.mp (h d hd))

/-- A character that is neither a letter, a digit nor a mark is in no name that stands as it is. -/
theorem not_mem_of_isPlain {c : Char} (hclass : k.isAlphanumeric c = false)
    (hmark : isMark c = false) (hctor : c ∉ ".ctor".toList) (hcctor : c ∉ ".cctor".toList)
    {cs : List Char} (h : isPlain k cs) : c ∉ cs := by
  intro hc
  rcases all_of_isPlain h with rfl | rfl | hall
  · exact hctor hc
  · exact hcctor hc
  · have hc := hall c hc
    rw [hclass, hmark] at hc
    simp at hc

/-- The characters that are escaped in an identifier stand for themselves behind a backslash. -/
theorem eq_of_identifierLetter? {c l : Char} (h : Quoted.identifierLetter? c = some l) : l = c := by
  unfold Quoted.identifierLetter? at h
  split at h
  · exact (Option.some.inj h).symm
  · exact (Option.some.inj h).symm
  · cases h

theorem escape_identifierLetter? (cs : List Char) :
    Quoted.escape Quoted.identifierLetter? cs =
      Quoted.replaceEach [('\\', '\\'), ('\'', '\'')] cs := by
  rw [Quoted.replaceEach_eq_escape (by simp [Quoted.LeavesAlone])]
  congr 1
  funext c
  unfold Quoted.identifierLetter?
  split
  · rfl
  · rfl
  · next hback hquote =>
    exact (Quoted.lookup_eq_none (by simpa using ⟨Ne.symm hback, Ne.symm hquote⟩)).symm

theorem toList_identifier (s : String) :
    (Quoted.identifier s).toList =
      '\'' :: Quoted.escape Quoted.identifierLetter? s.toList ++ ['\''] := by
  simp [Quoted.identifier]

/-! ### Reading -/

theorem read?_of_not_mem {s : String} (h : '\'' ∉ s.toList) : read? s = some s := by
  unfold read?
  split
  · next rest hs => exact absurd (hs ▸ List.mem_cons_self) h
  · rfl

theorem read?_identifier (s : String) : read? (Quoted.identifier s) = some s := by
  unfold read?
  rw [toList_identifier, List.cons_append]
  simp only [List.getLast?_concat, if_true, List.dropLast_concat]
  have hletters (c l : Char) (h : Quoted.identifierLetter? c = some l) :
      Quoted.identifierLetter? l = some c := by
    obtain rfl := eq_of_identifierLetter? h
    exact h
  rw [Quoted.unescape_escape hletters (by decide)]
  simp

theorem read?_escapeWith (hquote : k.isAlphanumeric '\'' = false) (s : String) :
    read? (escapeWith k s) = some s := by
  unfold escapeWith
  split
  · next hplain =>
    exact read?_of_not_mem (not_mem_of_isPlain hquote rfl (by decide) (by decide) hplain)
  · exact read?_identifier s

/-! ### Names with dots -/

theorem dot_not_mem_escapeWith {part : List Char} (hpart : '.' ∉ part) :
    '.' ∉ (escapeWith k (String.ofList part)).toList := by
  unfold escapeWith
  split
  · simpa using hpart
  · intro hdot
    rw [toList_identifier, String.toList_ofList, List.cons_append, List.mem_cons,
      List.mem_append, List.mem_singleton] at hdot
    rcases hdot with hdot | hdot | hdot
    · exact absurd hdot (by decide)
    · rcases Quoted.mem_escape hdot with hdot | hdot | ⟨d, hd⟩
      · exact hpart hdot
      · exact absurd hdot (by decide)
      · rw [← eq_of_identifierLetter? hd] at hd
        exact absurd hd (by decide)
    · exact absurd hdot (by decide)

theorem parts_escapeDottedWith {s : String} (hs : s ≠ "") :
    parts (escapeDottedWith k s) = (parts s).map (escapeWith k) := by
  unfold parts escapeDottedWith
  rw [if_neg hs, String.toList_intercalate, List.map_map]
  rw [show ".".toList = ['.'] from rfl, List.splitOn_intercalate]
  · simp [List.map_map, Function.comp_def]
  · intro text htext
    obtain ⟨part, hpart, rfl⟩ := List.mem_map.mp htext
    exact dot_not_mem_escapeWith (not_mem_of_mem_splitOn hpart)
  · simp

theorem mapM_read? (hquote : k.isAlphanumeric '\'' = false) (names : List String) :
    (names.map (escapeWith k)).mapM read? = some names := by
  induction names with
  | nil => rfl
  | cons name names ih => simp [List.mapM_cons, read?_escapeWith hquote, ih]

theorem mapM_read?_parts (hquote : k.isAlphanumeric '\'' = false) (s : String) :
    (parts (escapeDottedWith k s)).mapM read? = some (parts s) := by
  by_cases hs : s = ""
  · subst hs
    rfl
  · rw [parts_escapeDottedWith hs, mapM_read? hquote]

theorem parts_injective : Function.Injective parts := by
  intro s s' h
  have hpieces : s.toList.splitOn '.' = s'.toList.splitOn '.' :=
    List.map_injective_iff.mpr (fun _ _ => String.ofList_inj.mp) h
  have hjoined (text : String) : ['.'].intercalate (text.toList.splitOn '.') = text.toList :=
    List.intercalate_splitOn '.'
  rw [← String.toList_inj, ← hjoined, hpieces, hjoined]

/-! ### Nothing is lost -/

/-- How a name is written as an identifier: as it is, with nothing in it that would be read
    otherwise, or between apostrophes with its backslashes and then its apostrophes replaced. -/
inductive Written (name : String) : String → Prop
  | plain (hquote : '\'' ∉ name.toList) (hback : '\\' ∉ name.toList) : Written name name
  | quoted {inner : List Char}
      (replaced : inner = Quoted.replaceEach [('\\', '\\'), ('\'', '\'')] name.toList)
      (enclosed : Quoted.Enclosed '\'' inner) :
      Written name (String.ofList ('\'' :: inner ++ ['\'']))

theorem written_escapeWith (hquote : k.isAlphanumeric '\'' = false)
    (hback : k.isAlphanumeric '\\' = false) (name : String) :
    Written name (escapeWith k name) := by
  unfold escapeWith
  split
  · next hplain =>
    exact .plain (not_mem_of_isPlain hquote rfl (by decide) (by decide) hplain)
      (not_mem_of_isPlain hback rfl (by decide) (by decide) hplain)
  · rw [← String.ofList_toList (s := Quoted.identifier name), toList_identifier]
    exact .quoted (escape_identifierLetter? name.toList)
      (Quoted.enclosed_escape (by decide) (by decide) name.toList)

/-- What it means that names can be read off a listing. -/
structure ReadsBack (k : Classes) : Prop where
  written : ∀ name, Written name (escapeWith k name)
  read : ∀ name, read? (escapeWith k name) = some name
  readParts : ∀ name, (parts (escapeDottedWith k name)).mapM read? = some (parts name)
  injective : Function.Injective (escapeWith k)
  injectiveDotted : Function.Injective (escapeDottedWith k)

/-- **Identifiers read back.** Whatever letters and digits are, as long as the apostrophe and the
    backslash are none: every name is found again in its identifier, and the parts of a name with
    dots in the parts of what it is written as. So no two names look the same. -/
theorem readsBack_of_classes {k : Classes} (hquote : k.isAlphanumeric '\'' = false)
    (hback : k.isAlphanumeric '\\' = false) : ReadsBack k where
  written := written_escapeWith hquote hback
  read := read?_escapeWith hquote
  readParts := mapM_read?_parts hquote
  injective := by
    intro name name' h
    have hread := read?_escapeWith hquote name
    rw [h, read?_escapeWith hquote name'] at hread
    exact (Option.some.inj hread).symm
  injectiveDotted := by
    intro name name' h
    have hread := mapM_read?_parts hquote name
    rw [h, mapM_read?_parts hquote name'] at hread
    exact parts_injective (Option.some.inj hread).symm

/-- The classification of listings is such a one; a name with an apostrophe, and one with dots and
    a backslash before an apostrophe. -/
theorem readsBack_unicode :
    ReadsBack .unicode ∧ read? (escape "it's") = some "it's" ∧ escape "it's" = "'it\\'s'" ∧
      (parts (escapeDotted "A\\'.<B>")).mapM read? = some ["A\\'", "<B>"] ∧
      escapeDotted "A\\'.<B>" = "'A\\\\\\''.'<B>'" := by
  have hquote : Classes.unicode.isAlphanumeric '\'' = false := by decide
  have hback : Classes.unicode.isAlphanumeric '\\' = false := by decide
  have h := readsBack_of_classes hquote hback
  exact ⟨h, h.read _, by decide, h.readParts _, by decide⟩

end ILDump.Identifier
