import ILDump.Proofs.Settings.Files

/-!
# Values without quotes

A value that has no blanks around it and is not between two quotes of one kind is what its line
says, with one exception. Whether quotes are taken off is decided by the first character of the
value and by the last one, which in a value of one character are the same; so a quote by itself
is taken for a pair of quotes, and nothing is left of it.

What a line says does not depend on the lines above it and below it, so the main statement is
about a line anywhere in a file.
-/

namespace ILDump.EnvFile

/-! ### A line among others -/

/-- Where a whole line can stand: above it is nothing, or a text that ends with the end of a line,
    and below it is nothing, or a text that begins with one. -/
structure Alone (above below : List Char) : Prop where
  above : ∀ c ∈ above.getLast?, LineEnds.IsEnd c
  below : ∀ c ∈ below.head?, LineEnds.IsEnd c

theorem pairsOf_below {line below : List Char} (h : OneLine line)
    (hbelow : ∀ c ∈ below.head?, LineEnds.IsEnd c) :
    pairsOf (line ++ below) = (Line.read line).pair?.toList ++ pairsOf below := by
  have hnothing : OneLine [] := ⟨List.not_mem_nil, List.not_mem_nil⟩
  have hend (lineEnd : LineEnd) (rest : List Char) :
      pairsOf (line ++ (lineEnd.text ++ rest)) =
        (Line.read line).pair?.toList ++ pairsOf (lineEnd.text ++ rest) := by
    rw [← List.append_assoc, pairsOf_line h]
    have hempty := pairsOf_line hnothing lineEnd rest
    rw [List.nil_append, pair?_of_noEquals List.not_mem_nil] at hempty
    rw [hempty]
    rfl
  cases below with
  | nil =>
    rw [List.append_nil, pairsOf, LineEnds.linesOf_oneLine h, List.flatMap_singleton, pairsOf,
      LineEnds.linesOf_oneLine hnothing, List.flatMap_singleton,
      pair?_of_noEquals List.not_mem_nil]
    exact (List.append_nil _).symm
  | cons c rest =>
    rcases hbelow c rfl with rfl | rfl
    · exact hend .lineFeed rest
    · exact hend .carriageReturn rest

theorem pairsOf_above {above rest : List Char} (h : ∀ c ∈ above.getLast?, LineEnds.IsEnd c)
    (hrest : rest.head? ≠ some '\n') : pairsOf (above ++ rest) = pairsOf above ++ pairsOf rest := by
  rcases List.eq_nil_or_concat' above with rfl | ⟨front, c, rfl⟩
  · rfl
  · obtain ⟨lines, habove, hlines⟩ := LineEnds.linesOf_append_of_end front
      (h c List.getLast?_concat) hrest
    rw [pairsOf, hlines, List.flatMap_append, pairsOf, habove, List.flatMap_append,
      List.flatMap_singleton, pair?_of_noEquals List.not_mem_nil, Option.toList_none,
      List.append_nil, pairsOf]

theorem pairsOf_between {line above below : List Char} (h : OneLine line)
    (hne : line ≠ []) (halone : Alone above below) :
    pairsOf (above ++ line ++ below) =
      pairsOf above ++ ((Line.read line).pair?.toList ++ pairsOf below) := by
  have hfeed : (line ++ below).head? ≠ some '\n' := by
    rw [List.head?_append_of_ne_nil _ hne]
    exact fun hhead => h.noFeed (List.mem_of_mem_head? hhead)
  rw [List.append_assoc, pairsOf_above halone.above hfeed, pairsOf_below h halone.below]

/-! ### Values without quotes around -/

/-- Values between two quotes of one kind. -/
def InQuotes (value : List Char) : Prop :=
  ∃ quote inner, (quote = '"' ∨ quote = '\'') ∧ value = [quote] ++ inner ++ [quote]

/-- A quote and nothing else. -/
def IsLoneQuote (value : List Char) : Prop :=
  value = ['"'] ∨ value = ['\'']

/-- The first character and the last one are looked at separately, and in a text of one character
    they are the same. -/
theorem lone_or_quoted_of_ends {value : List Char} {quote : Char}
    (hfirst : value.head? = some quote) (hlast : value.getLast? = some quote) :
    value = [quote] ∨ ∃ inner, value = [quote] ++ inner ++ [quote] := by
  obtain ⟨rest, rfl⟩ := List.head?_eq_some_iff.mp hfirst
  rcases List.eq_nil_or_concat' rest with rfl | ⟨inner, last, rfl⟩
  · exact .inl rfl
  · rw [← List.cons_append, List.getLast?_concat, Option.some.injEq] at hlast
    subst hlast
    exact .inr ⟨inner, rfl⟩

theorem unquote_of_bare {value : List Char} (h : ¬ InQuotes value) (hlone : ¬ IsLoneQuote value) :
    unquote value = value := by
  have hnot (quote : Char) (hquote : quote = '"' ∨ quote = '\'') :
      ¬ (value.head? = some quote ∧ value.getLast? = some quote) := by
    rintro ⟨hfirst, hlast⟩
    rcases lone_or_quoted_of_ends hfirst hlast with heq | ⟨inner, heq⟩
    · rcases hquote with rfl | rfl
      · exact hlone (.inl heq)
      · exact hlone (.inr heq)
    · exact h ⟨quote, inner, hquote, heq⟩
  unfold unquote
  extract_lets encloses
  refine if_neg fun hencloses => ?_
  simp only [encloses, Bool.or_eq_true, Bool.and_eq_true, decide_eq_true_eq] at hencloses
  rcases hencloses with hboth | hboth
  · exact hnot '"' (.inl rfl) hboth
  · exact hnot '\'' (.inr rfl) hboth

theorem unquote_of_isLoneQuote {value : List Char} (h : IsLoneQuote value) :
    unquote value = [] := by
  rcases h with rfl | rfl <;> rfl

/-- Values that are written without quotes: no blanks around, and not between quotes. -/
structure IsBare (value : String) : Prop where
  trimmed : Unicode.trim value = value
  notInQuotes : ¬ InQuotes value.toList

/-- A line with a bare value under a key, with blanks anywhere around. -/
inductive SetsBare (key value : String) : List Char → Prop
  | line {before afterKey beforeValue after : List Char} (isKey : IsKey key)
      (isBare : IsBare value) (blanksBefore : Gap before) (blanksAfterKey : Gap afterKey)
      (blanksBeforeValue : Gap beforeValue) (blanksAfter : Gap after) :
      SetsBare key value (before ++ key.toList ++ afterKey ++ ['='] ++ beforeValue ++
        value.toList ++ after)

/-- The blanks around a line go first, and what is then behind the equals sign is the value with
    blanks before it. If there is no value, those blanks are at the end and have gone as well. -/
theorem exists_right (left : List Char) {before beforeValue after : List Char} {value : String}
    (hleft : Unicode.Trimmed Unicode.isBlank (left ++ ['='])) (hbefore : Gap before)
    (hbeforeValue : Gap beforeValue) (hafter : Gap after) (hvalue : Unicode.trim value = value) :
    ∃ right, Unicode.trimWhile Unicode.isBlank
        (before ++ (left ++ ['='] ++ beforeValue ++ value.toList) ++ after) = left ++ '=' :: right ∧
      Unicode.trimWhile Unicode.isBlank right = value.toList := by
  have hne : left ++ ['='] ≠ [] := by simp
  by_cases hnone : value.toList = []
  · have hblanks : Gap (beforeValue ++ after) := fun c hc =>
      (List.mem_append.mp hc).elim (hbeforeValue c) (hafter c)
    refine ⟨[], ?_, hnone.symm⟩
    have hline := Unicode.trimWhile_surrounded hbefore hblanks hne hleft
    simpa only [hnone, List.append_assoc, List.append_nil, List.nil_append] using hline
  · have htrimmed := Unicode.trimmed_of_trim_eq hvalue
    refine ⟨beforeValue ++ value.toList, ?_, ?_⟩
    · have hline := Unicode.trimWhile_surrounded hbefore hafter (by simp)
        (hleft.between htrimmed hne hnone beforeValue)
      simpa only [List.append_assoc, List.singleton_append, List.cons_append,
        List.nil_append] using hline
    · have hright := Unicode.trimWhile_surrounded hbeforeValue (List.forall_mem_nil _) hnone
        htrimmed
      rwa [List.append_nil] at hright

/-- A line with a bare value says that the key has what is left of the value when quotes are taken
    off. -/
theorem pair?_of_setsBare {key value : String} {line : List Char} (h : SetsBare key value line) :
    (Line.read line).pair? = some (key, String.ofList (unquote value.toList)) := by
  cases h with
  | @line before afterKey beforeValue after isKey isBare hbefore hafterKey hbeforeValue hafter =>
    have hkey := Unicode.trimmed_of_trim_eq isKey.trimmed
    have hleft : Unicode.Trimmed Unicode.isBlank (key.toList ++ afterKey ++ ['=']) :=
      hkey.between (.singleton (by decide)) isKey.toList_ne_nil (by simp) afterKey
    obtain ⟨right, hline, hright⟩ := exists_right (key.toList ++ afterKey) hleft hbefore
      hbeforeValue hafter isBare.trimmed
    simp only [← List.append_assoc] at hline
    rw [pair?_of_key isKey hafterKey hline, hright]

theorem SetsBare.ne_nil {key value : String} {line : List Char} (h : SetsBare key value line) :
    line ≠ [] := by
  cases h
  simp

end ILDump.EnvFile

namespace ILDump.Settings

open EnvFile (Alone IsLoneQuote SetsBare merged pairsOf)

/-- **Bare settings read back, but for a quote by itself.** Whatever stands above and below, the
    line of a bare value sets it, unless the value is a single quote character: then the line sets
    the empty text. -/
theorem bare_setting_reads_back {w : Workspace} {path : Path} {text key value : String}
    {above line below : List Char} (hread : w.read path = .ok (Utf8.encode text))
    (htext : text.toList = above ++ line ++ below) (halone : Alone above below)
    (hone : OneLine line) (hline : SetsBare key value line) :
    ∃ log,
      (¬ IsLoneQuote value.toList → readFrom path w =
        .ok (merged (pairsOf above ++ (key, value) :: pairsOf below)) { w with log }) ∧
      (IsLoneQuote value.toList → readFrom path w =
        .ok (merged (pairsOf above ++ (key, "") :: pairsOf below)) { w with log }) := by
  obtain ⟨log, hlog⟩ := readFrom_of_read hread
  rw [Utf8.decode?_encode, Option.map_some, EnvFile.settings_eq, htext,
    EnvFile.pairsOf_between hone hline.ne_nil halone, EnvFile.pair?_of_setsBare hline] at hlog
  refine ⟨log, fun hlone => ?kept, fun hlone => ?lost⟩
  case kept =>
    obtain ⟨-, isBare⟩ := hline
    rw [EnvFile.unquote_of_bare isBare.notInQuotes hlone, String.ofList_toList] at hlog
    exact hlog
  case lost =>
    rw [EnvFile.unquote_of_isLoneQuote hlone] at hlog
    exact hlog

/-- Between a comment and another setting, a value that starts with an apostrophe, has one more
    inside and ends with a double quote. -/
theorem bare_setting_reads_back_apostrophes :
    ∃ (w : Workspace) (log : Array LogRecord),
      w.read (.ofString ".env") = .ok (Utf8.encode "#\r\nA = 'it's\"\nB=1") ∧
      SetsBare "A" "'it's\"" "A = 'it's\"".toList ∧
      ¬ IsLoneQuote "'it's\"".toList ∧
      readFrom (.ofString ".env") w = .ok [("A", "'it's\""), ("B", "1")] { w with log } := by
  let w := Workspace.ofTree
    (.ofEntries [([".env"], .file (Utf8.encode "#\r\nA = 'it's\"\nB=1") false)]) [] []
  have hread : w.read (.ofString ".env") = .ok (Utf8.encode "#\r\nA = 'it's\"\nB=1") := by decide
  have hkey : EnvFile.IsKey "A" := ⟨by decide, by decide, by decide, by decide⟩
  have hbare : EnvFile.IsBare "'it's\"" := by
    refine ⟨by decide, ?_⟩
    rintro ⟨quote, inner, -, heq⟩
    have hends : "'it's\"".toList.head? = "'it's\"".toList.getLast? := by
      rw [heq, List.getLast?_concat]
      rfl
    exact absurd hends (by decide)
  have hnone : EnvFile.Gap [] := List.forall_mem_nil _
  have hblank : EnvFile.Gap [' '] := List.forall_mem_singleton.mpr (by decide)
  have hline : SetsBare "A" "'it's\"" "A = 'it's\"".toList :=
    .line hkey hbare hnone hblank hblank hnone
  have hlone : ¬ IsLoneQuote "'it's\"".toList := not_or.mpr ⟨by decide, by decide⟩
  have htext : "#\r\nA = 'it's\"\nB=1".toList =
      "#\r\n".toList ++ "A = 'it's\"".toList ++ "\nB=1".toList := by decide
  have halone : Alone "#\r\n".toList "\nB=1".toList := by
    have habove : "#\r\n".toList.getLast? = some '\n' := by decide
    have hbelow : "\nB=1".toList.head? = some '\n' := by decide
    refine ⟨fun c hc => ?_, fun c hc => ?_⟩
    · rw [habove] at hc
      exact .inl (Option.some.inj hc).symm
    · rw [hbelow] at hc
      exact .inl (Option.some.inj hc).symm
  obtain ⟨log, hkept, -⟩ := bare_setting_reads_back hread htext halone
    ⟨by decide, by decide⟩ hline
  exact ⟨w, log, hread, hline, hlone, hkept hlone⟩

/-- A double quote by itself is no value between quotes, and yet nothing of it is left. -/
theorem bare_setting_lost :
    ∃ (w : Workspace) (log : Array LogRecord),
      w.read (.ofString ".env") = .ok (Utf8.encode "A=\"") ∧
      SetsBare "A" "\"" "A=\"".toList ∧ OneLine "A=\"".toList ∧
      readFrom (.ofString ".env") w = .ok [("A", "")] { w with log } := by
  let w := Workspace.ofTree (.ofEntries [([".env"], .file (Utf8.encode "A=\"") false)]) [] []
  have hread : w.read (.ofString ".env") = .ok (Utf8.encode "A=\"") := by decide
  have hkey : EnvFile.IsKey "A" := ⟨by decide, by decide, by decide, by decide⟩
  have hbare : EnvFile.IsBare "\"" := by
    refine ⟨by decide, ?_⟩
    rintro ⟨quote, inner, -, heq⟩
    have hlength := congrArg List.length heq
    rw [List.length_append, List.length_append] at hlength
    exact absurd hlength (by simp)
  have hnone : EnvFile.Gap [] := List.forall_mem_nil _
  obtain ⟨log, hlog⟩ := readFrom_of_read hread
  exact ⟨w, log, hread, .line hkey hbare hnone hnone hnone hnone, ⟨by decide, by decide⟩, hlog⟩

end ILDump.Settings
