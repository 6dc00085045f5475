import ILDump.Proofs.Settings.Loads
import ILDump.Proofs.Text.Joined
import ILDump.Proofs.Text.LineEnds
import ILDump.Proofs.Text.Trimming
import ILDump.Proofs.Text.Utf8

/-!
# Reading files of settings back

A line with a quoted value is taken apart at its first equals sign, which is that behind the key,
since a key has none and blanks are none. What is left of it trims to the key and what is right of
it to the quoted value, from which the two quotes are taken and nothing else, whatever is between
them. Empty lines, comments and lines without an equals sign say nothing. So a file says what its
lines say, in their order; the ends of the lines are all alike, and the one that is swallowed if a
carriage return and a line feed meet is that of an empty line.
-/

namespace ILDump.EnvFile

/-! ### Settings in their order -/

/-- The value of the last pair with a key. -/
def lastValue (pairs : List (String × String)) (key : String) : String :=
  (pairs.reverse.lookup key).getD ""

/-- Each key once, where it comes first, with the value that it has last. -/
def merged (pairs : List (String × String)) : List (String × String) :=
  (pairs.map Prod.fst).eraseDups.map fun key => (key, lastValue pairs key)

theorem lastValue_concat (pairs : List (String × String)) (key value key' : String) :
    lastValue (pairs ++ [(key, value)]) key' =
      if key' = key then value else lastValue pairs key' := by
  rw [lastValue, List.reverse_append, List.reverse_singleton, List.singleton_append,
    List.lookup_cons, lastValue]
  by_cases h : key' = key
  · rw [if_pos h, beq_iff_eq.mpr h]
    rfl
  · rw [if_neg h, beq_eq_false_iff_ne.mpr h]

theorem merged_any (pairs : List (String × String)) (key : String) :
    ((merged pairs).any fun s => s.1 = key) = true ↔ key ∈ pairs.map Prod.fst := by
  rw [merged, List.any_map, List.any_eq_true]
  simp only [Function.comp_apply, decide_eq_true_eq, List.mem_eraseDups, exists_eq_right]

theorem keys_concat (pairs : List (String × String)) (key value : String) :
    ((pairs ++ [(key, value)]).map Prod.fst).eraseDups =
      if key ∈ pairs.map Prod.fst then (pairs.map Prod.fst).eraseDups
      else (pairs.map Prod.fst).eraseDups ++ [key] := by
  rw [List.map_append, List.map_singleton, List.eraseDups_append]
  by_cases h : key ∈ pairs.map Prod.fst
  · rw [if_pos h]
    simp [List.removeAll, h]
  · rw [if_neg h]
    simp [List.removeAll, h, List.eraseDups_cons]

/-- A setting put to those before it. -/
theorem put_merged (pairs : List (String × String)) (key value : String) :
    put (merged pairs) key value = merged (pairs ++ [(key, value)]) := by
  have hnext : merged (pairs ++ [(key, value)]) =
      ((pairs ++ [(key, value)]).map Prod.fst).eraseDups.map fun key' =>
        (key', if key' = key then value else lastValue pairs key') := by
    rw [merged]
    exact List.map_congr_left fun key' _ => by rw [lastValue_concat]
  rw [put, hnext, keys_concat]
  by_cases h : key ∈ pairs.map Prod.fst
  · rw [if_pos ((merged_any pairs key).mpr h), if_pos h, merged, List.map_map]
    refine List.map_congr_left fun key' _ => ?_
    rw [Function.comp_apply]
    by_cases hkey : key' = key
    · rw [if_pos hkey, if_pos hkey, hkey]
    · rw [if_neg hkey, if_neg hkey]
  · rw [if_neg fun hany => h ((merged_any pairs key).mp hany), if_neg h, List.map_append,
      List.map_singleton, if_pos rfl, merged]
    congr 1
    refine List.map_congr_left fun key' hkey' => ?_
    rw [if_neg fun hkey : key' = key => h (hkey ▸ List.mem_eraseDups.mp hkey')]

theorem foldl_put (pairs : List (String × String)) :
    pairs.foldl (fun found s => put found s.1 s.2) [] = merged pairs := by
  induction pairs using List.reverseRecOn with
  | nil => rfl
  | append_singleton pairs pair ih =>
    rw [List.foldl_append, ih, List.foldl_cons, List.foldl_nil, put_merged]

/-! ### Lines -/

/-- Blanks and nothing else. -/
def Gap (cs : List Char) : Prop :=
  ∀ c ∈ cs, Unicode.isBlank c

/-- Keys that can be written in a line. -/
structure IsKey (key : String) : Prop where
  ne_empty : key ≠ ""
  trimmed : Unicode.trim key = key
  noEquals : '=' ∉ key.toList
  noHash : key.toList.head? ≠ some '#'

/-- What a line says: nothing, or a value in quotes of either kind under a key, with blanks
    anywhere around. -/
inductive LineTells : List Char → Option (String × String) → Prop
  | blank {gap : List Char} (blanks : Gap gap) : LineTells gap none
  | comment {gap : List Char} (blanks : Gap gap) (rest : List Char) :
      LineTells (gap ++ '#' :: rest) none
  | remark {line : List Char} (noEquals : '=' ∉ line) : LineTells line none
  | setting {key : String} {quote : Char} {before afterKey beforeValue after : List Char}
      (isKey : IsKey key) (value : String) (isQuote : quote = '"' ∨ quote = '\'')
      (blanksBefore : Gap before) (blanksAfterKey : Gap afterKey)
      (blanksBeforeValue : Gap beforeValue) (blanksAfter : Gap after) :
      LineTells (before ++ key.toList ++ afterKey ++ ['='] ++ beforeValue ++ [quote] ++
        value.toList ++ [quote] ++ after) (some (key, value))

/-- The setting of a line, if it has one. -/
def Line.pair? : Line → Option (String × String)
  | .setting key value => some (String.ofList key, String.ofList value)
  | _ => none

theorem equals_not_mem_gap {gap : List Char} (h : Gap gap) : '=' ∉ gap := by
  intro hmem
  exact absurd (h '=' hmem) (by decide)

theorem pair?_of_noEquals {line : List Char} (h : '=' ∉ line) : (Line.read line).pair? = none := by
  unfold Line.read
  split
  · rfl
  · rfl
  · have hnone : ¬ (Unicode.trimWhile Unicode.isBlank line).contains '=' := fun hmem =>
      h (Unicode.mem_of_mem_trimWhile (List.contains_iff_mem.mp hmem))
    rw [if_neg hnone]
    rfl

theorem pair?_of_comment {gap : List Char} (h : Gap gap) (rest : List Char) :
    (Line.read (gap ++ '#' :: rest)).pair? = none := by
  have hhash : Unicode.isBlank '#' = false := by decide
  obtain ⟨rest', htrim⟩ := Unicode.exists_trimWhile_eq_cons h hhash rest
  unfold Line.read
  rw [htrim]
  rfl

/-- A line is taken apart at the first equals sign. -/
theorem read_of_trim {line left right : List Char}
    (htrim : Unicode.trimWhile Unicode.isBlank line = left ++ '=' :: right) (hleft : '=' ∉ left)
    (hkey : Unicode.trimWhile Unicode.isBlank left ≠ []) (hhash : left.head? ≠ some '#') :
    Line.read line = .setting (Unicode.trimWhile Unicode.isBlank left)
      (unquote (Unicode.trimWhile Unicode.isBlank right)) := by
  have htake : (left ++ '=' :: right).takeWhile (· ≠ '=') = left :=
    takeWhile_append_of_head? hleft (by simp)
  have hdrop : (left ++ '=' :: right).dropWhile (· ≠ '=') = '=' :: right := by
    have hall : ∀ c ∈ left, decide (c ≠ '=') = true := by
      intro c hc
      exact decide_eq_true fun h => hleft (h ▸ hc)
    rw [List.dropWhile_append_of_pos hall]
    exact List.dropWhile_cons_of_neg (by simp)
  unfold Line.read
  rw [htrim]
  split
  · rename_i hnil
    exact absurd hnil (by simp)
  · rename_i rest hcomment
    cases left with
    | nil => cases hcomment
    | cons c left => exact absurd (congrArg some (List.cons.inj hcomment).1) hhash
  · rw [if_pos (by simp), htake, hdrop]
    exact if_neg (by simpa using hkey)

theorem unquote_quoted {quote : Char} (h : quote = '"' ∨ quote = '\'') (value : List Char) :
    unquote ([quote] ++ value ++ [quote]) = value := by
  have hfirst : ([quote] ++ value ++ [quote]).head? = some quote := rfl
  have hlast : ([quote] ++ value ++ [quote]).getLast? = some quote := List.getLast?_concat
  have hinner : (([quote] ++ value ++ [quote]).drop 1).dropLast = value := by simp
  unfold unquote
  extract_lets encloses
  have hencloses : (encloses '"' || encloses '\'') = true := by
    rcases h with rfl | rfl
    · simp only [encloses, hfirst, hlast, decide_true, Bool.and_self, Bool.true_or]
    · simp only [encloses, hfirst, hlast, decide_true, Bool.and_self, Bool.or_true]
  rw [if_pos hencloses, hinner]

theorem IsKey.toList_ne_nil {key : String} (h : IsKey key) : key.toList ≠ [] :=
  fun hnil => h.ne_empty (String.toList_inj.mp hnil)

/-- A line with a key before its first equals sign gives it what stands behind that sign, without
    the blanks and the quotes around. -/
theorem pair?_of_key {key : String} {line afterKey right : List Char} (hkey : IsKey key)
    (hafterKey : Gap afterKey)
    (htrim : Unicode.trimWhile Unicode.isBlank line = (key.toList ++ afterKey) ++ '=' :: right) :
    (Line.read line).pair? =
      some (key, String.ofList (unquote (Unicode.trimWhile Unicode.isBlank right))) := by
  have hne := hkey.toList_ne_nil
  have hleft : '=' ∉ key.toList ++ afterKey := by
    rw [List.mem_append, not_or]
    exact ⟨hkey.noEquals, equals_not_mem_gap hafterKey⟩
  have hhash : (key.toList ++ afterKey).head? ≠ some '#' := by
    rw [List.head?_append_of_ne_nil _ hne]
    exact hkey.noHash
  have hkeyTrim : Unicode.trimWhile Unicode.isBlank (key.toList ++ afterKey) = key.toList :=
    Unicode.trimWhile_surrounded (List.forall_mem_nil _) hafterKey hne
      (Unicode.trimmed_of_trim_eq hkey.trimmed)
  rw [read_of_trim htrim hleft (by rwa [hkeyTrim]) hhash, hkeyTrim, Line.pair?,
    String.ofList_toList]

/-- A line with a quoted value says that the key has the value: the blanks around go first, then
    those on either side of the equals sign, and then the quotes. -/
theorem pair?_of_setting {key : String} {quote : Char}
    {before afterKey beforeValue after : List Char} (hkey : IsKey key) (value : String)
    (hquote : quote = '"' ∨ quote = '\'') (hbefore : Gap before) (hafterKey : Gap afterKey)
    (hbeforeValue : Gap beforeValue) (hafter : Gap after) :
    (Line.read (before ++ key.toList ++ afterKey ++ ['='] ++ beforeValue ++ [quote] ++
      value.toList ++ [quote] ++ after)).pair? = some (key, value) := by
  have hne := hkey.toList_ne_nil
  have hkeyTrimmed := Unicode.trimmed_of_trim_eq hkey.trimmed
  have hquoteTrimmed : Unicode.Trimmed Unicode.isBlank [quote] := by
    refine .singleton ?_
    rcases hquote with rfl | rfl <;> decide
  have hquotedTrimmed : Unicode.Trimmed Unicode.isBlank ([quote] ++ value.toList ++ [quote]) :=
    hquoteTrimmed.between hquoteTrimmed (by simp) (by simp) _
  have htrim : Unicode.trimWhile Unicode.isBlank (before ++ key.toList ++ afterKey ++ ['='] ++
      beforeValue ++ [quote] ++ value.toList ++ [quote] ++ after) =
      (key.toList ++ afterKey) ++ '=' :: (beforeValue ++ ([quote] ++ value.toList ++ [quote])) := by
    have hline := Unicode.trimWhile_surrounded hbefore hafter (by simp)
      (hkeyTrimmed.between hquotedTrimmed hne (by simp) (afterKey ++ ['='] ++ beforeValue))
    simpa only [List.append_assoc, List.cons_append, List.nil_append] using hline
  have hvalueTrim : Unicode.trimWhile Unicode.isBlank
      (beforeValue ++ ([quote] ++ value.toList ++ [quote])) =
        [quote] ++ value.toList ++ [quote] := by
    have hvalue := Unicode.trimWhile_surrounded hbeforeValue (List.forall_mem_nil _) (by simp)
      hquotedTrimmed
    rwa [List.append_nil] at hvalue
  rw [pair?_of_key hkey hafterKey htrim, hvalueTrim, unquote_quoted hquote, String.ofList_toList]

theorem pair?_of_lineTells {line : List Char} {pair? : Option (String × String)}
    (h : LineTells line pair?) : (Line.read line).pair? = pair? := by
  cases h with
  | blank blanks => exact pair?_of_noEquals (equals_not_mem_gap blanks)
  | comment blanks rest => exact pair?_of_comment blanks rest
  | remark noEquals => exact pair?_of_noEquals noEquals
  | setting isKey value isQuote blanksBefore blanksAfterKey blanksBeforeValue blanksAfter =>
    exact pair?_of_setting isKey value isQuote blanksBefore blanksAfterKey blanksBeforeValue
      blanksAfter

/-! ### Files -/

/-- What the lines of a text tell, in their order. -/
def pairsOf (text : List Char) : List (String × String) :=
  (LineEnds.linesOf text).flatMap fun line => (Line.read line).pair?.toList

/-- Files of settings: lines that tell a setting or nothing, each with an end of its own, and one
    more behind the last end, which may be empty. -/
inductive FileTells : List Char → List (String × String) → Prop
  | last {line : List Char} {pair? : Option (String × String)} (one : OneLine line)
      (tells : LineTells line pair?) : FileTells line pair?.toList
  | line {line rest : List Char} {pair? : Option (String × String)}
      {pairs : List (String × String)} (one : OneLine line) (tells : LineTells line pair?)
      (lineEnd : LineEnd) (others : FileTells rest pairs) :
      FileTells (line ++ lineEnd.text ++ rest) (pair?.toList ++ pairs)

theorem pairsOf_feed (rest : List Char) : pairsOf ('\n' :: rest) = pairsOf rest := by
  rw [pairsOf, LineEnds.linesOf_feed, List.flatMap_cons, pair?_of_noEquals List.not_mem_nil]
  rfl

theorem pairsOf_line {line : List Char} (h : OneLine line) (lineEnd : LineEnd)
    (rest : List Char) :
    pairsOf (line ++ lineEnd.text ++ rest) = (Line.read line).pair?.toList ++ pairsOf rest := by
  rcases LineEnds.linesOf_line h lineEnd rest with hlines | ⟨after, rfl, hlines⟩
  · rw [pairsOf, hlines, List.flatMap_cons, pairsOf]
  · rw [pairsOf_feed, pairsOf, hlines, List.flatMap_cons, pairsOf]

/-- By induction along the lines of the file. -/
theorem pairsOf_of_fileTells {text : List Char} {pairs : List (String × String)}
    (h : FileTells text pairs) : pairsOf text = pairs := by
  induction h with
  | last one tells =>
    rw [pairsOf, LineEnds.linesOf_oneLine one, List.flatMap_singleton, pair?_of_lineTells tells]
  | line one tells lineEnd _ ih => rw [pairsOf_line one, pair?_of_lineTells tells, ih]

theorem settings_eq (text : String) : settings text = merged (pairsOf text.toList) := by
  rw [← foldl_put, pairsOf, List.foldl_flatMap, settings, lines, List.foldl_map,
    LineEnds.linesOf]
  congr 1
  funext found line
  cases Line.read line <;> rfl

end ILDump.EnvFile

namespace ILDump.Settings

open EnvFile (FileTells merged)

/-- **Quoted settings read back.** A file that tells settings in quoted values, whatever quotes,
    number signs, equals signs and blanks the values have, and whatever blanks, comments and other
    lines there are beside them, is read as these settings: each key at its first place, with its
    last value. -/
theorem quoted_settings_read_back {w : Workspace} {path : Path} {text : String}
    {pairs : List (String × String)} (hread : w.read path = .ok (Utf8.encode text))
    (htells : FileTells text.toList pairs) :
    ∃ log, readFrom path w = .ok (merged pairs) { w with log } := by
  obtain ⟨log, hlog⟩ := readFrom_of_read hread
  rw [Utf8.decode?_encode, Option.map_some, EnvFile.settings_eq,
    EnvFile.pairsOf_of_fileTells htells] at hlog
  exact ⟨log, hlog⟩

/-- A comment, two values for one key, the first with an apostrophe and a number sign between
    double quotes and the other a single double quote between apostrophes, an empty value, and an
    empty line whose line feed follows a carriage return. -/
def sampleFile : String :=
  "# a=b\r\n A =\t\"it's #1\" \r\nnote\r\nB=''\nA='\"'"

theorem quoted_settings_read_back_twice :
    ∃ (w : Workspace) (log : Array LogRecord),
      w.read (.ofString ".env") = .ok (Utf8.encode sampleFile) ∧
      FileTells sampleFile.toList [("A", "it's #1"), ("B", ""), ("A", "\"")] ∧
      readFrom (.ofString ".env") w = .ok [("A", "\""), ("B", "")] { w with log } := by
  let w := Workspace.ofTree (.ofEntries [([".env"], .file (Utf8.encode sampleFile) false)]) [] []
  have hread : w.read (.ofString ".env") = .ok (Utf8.encode sampleFile) := by decide
  have hA : EnvFile.IsKey "A" := ⟨by decide, by decide, by decide, by decide⟩
  have hB : EnvFile.IsKey "B" := ⟨by decide, by decide, by decide, by decide⟩
  have hnone : EnvFile.Gap [] := List.forall_mem_nil _
  have hblank : EnvFile.Gap [' '] := List.forall_mem_singleton.mpr (by decide)
  have htab : EnvFile.Gap ['\t'] := List.forall_mem_singleton.mpr (by decide)
  have htext : sampleFile.toList =
      [] ++ '#' :: " a=b".toList ++ LineEnd.both.text ++
        ([' '] ++ "A".toList ++ [' '] ++ ['='] ++ ['\t'] ++ ['"'] ++ "it's #1".toList ++ ['"'] ++
            [' '] ++ LineEnd.both.text ++
          ("note".toList ++ LineEnd.carriageReturn.text ++
            ([] ++ LineEnd.lineFeed.text ++
              ([] ++ "B".toList ++ [] ++ ['='] ++ [] ++ ['\''] ++ "".toList ++ ['\''] ++ [] ++
                  LineEnd.lineFeed.text ++
                ([] ++ "A".toList ++ [] ++ ['='] ++ [] ++ ['\''] ++ "\"".toList ++ ['\''] ++
                  []))))) := by decide
  have htells : FileTells sampleFile.toList [("A", "it's #1"), ("B", ""), ("A", "\"")] := by
    rw [htext]
    have hlast := FileTells.last ⟨by decide, by decide⟩
      (.setting hA "\"" (.inr rfl) hnone hnone hnone hnone)
    have hempty := FileTells.line ⟨by decide, by decide⟩
      (.setting hB "" (.inr rfl) hnone hnone hnone hnone) .lineFeed hlast
    have hswallowed := FileTells.line ⟨by decide, by decide⟩ (.blank hnone) .lineFeed hempty
    have hnote := FileTells.line ⟨by decide, by decide⟩
      (.remark (by decide : '=' ∉ "note".toList)) .carriageReturn hswallowed
    have hfirst := FileTells.line ⟨by decide, by decide⟩
      (.setting hA "it's #1" (.inl rfl) hblank hblank htab hblank) .both hnote
    exact FileTells.line ⟨by decide, by decide⟩ (.comment hnone _) .both hfirst
  obtain ⟨log, hlog⟩ := quoted_settings_read_back hread htells
  exact ⟨w, log, hread, htells, hlog⟩

end ILDump.Settings
