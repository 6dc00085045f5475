import ILDump.Text.LineEnds

/-!
# Lines and their ends

A text is cut into the same lines whichever end each of them has, with one exception: a carriage
return and a line feed that belong to two ends, with nothing between them, are taken for one. Then
an empty line is missing.
-/

namespace ILDump

/-- The ends that a line can have. -/
inductive LineEnd where
  | lineFeed
  | carriageReturn
  | both
deriving DecidableEq, Repr

def LineEnd.text : LineEnd → List Char
  | lineFeed => ['\n']
  | carriageReturn => ['\r']
  | both => ['\r', '\n']

/-- Whether a text is within one line. -/
structure OneLine (line : List Char) : Prop where
  noFeed : '\n' ∉ line
  noReturn : '\r' ∉ line

namespace LineEnds

/-- The lines of a text. -/
def linesOf (text : List Char) : List (List Char) :=
  (unify text).splitOn '\n'

theorem unify_cons {c : Char} (h : c ≠ '\r') (rest : List Char) :
    unify (c :: rest) = c :: unify rest := by
  rw [unify]
  · exact fun _ hc => absurd hc h
  · exact h

theorem unify_append {line : List Char} (h : '\r' ∉ line) (rest : List Char) :
    unify (line ++ rest) = line ++ unify rest := by
  induction line with
  | nil => rfl
  | cons c line ih =>
    rw [List.mem_cons, not_or] at h
    rw [List.cons_append, unify_cons (Ne.symm h.1), ih h.2, List.cons_append]

theorem linesOf_feed (rest : List Char) : linesOf ('\n' :: rest) = [] :: linesOf rest := by
  rw [linesOf, unify_cons (by decide), ← List.nil_append ('\n' :: unify rest),
    List.splitOn_append_cons_self_of_not_mem List.not_mem_nil, linesOf]

/-- The last line, with no end. -/
theorem linesOf_oneLine {line : List Char} (h : OneLine line) : linesOf line = [line] := by
  have hunify := unify_append h.noReturn []
  rw [List.append_nil, unify, List.append_nil] at hunify
  rw [linesOf, hunify, List.splitOn_eq_singleton h.noFeed]

theorem linesOf_append {line rest rest' : List Char} (h : OneLine line)
    (hrest : unify rest = '\n' :: unify rest') :
    linesOf (line ++ rest) = line :: linesOf rest' := by
  rw [linesOf, unify_append h.noReturn, hrest,
    List.splitOn_append_cons_self_of_not_mem h.noFeed, linesOf]

theorem unify_both (rest : List Char) : unify ('\r' :: '\n' :: rest) = '\n' :: unify rest := by
  rw [unify]

theorem unify_return {rest : List Char} (h : ∀ after, rest ≠ '\n' :: after) :
    unify ('\r' :: rest) = '\n' :: unify rest := by
  rw [unify]
  exact h

/-- A line with its end. An empty line is missing if this one ends in a carriage return and the
    next one is empty and ends in a line feed. -/
theorem linesOf_line {line : List Char} (h : OneLine line) (lineEnd : LineEnd)
    (rest : List Char) :
    linesOf (line ++ lineEnd.text ++ rest) = line :: linesOf rest ∨
      ∃ after, rest = '\n' :: after ∧
        linesOf (line ++ lineEnd.text ++ rest) = line :: linesOf after := by
  rw [List.append_assoc]
  cases lineEnd with
  | lineFeed => exact .inl (linesOf_append h (unify_cons (by decide) rest))
  | both => exact .inl (linesOf_append h (unify_both rest))
  | carriageReturn =>
    by_cases hfeed : ∃ after, rest = '\n' :: after
    · obtain ⟨after, rfl⟩ := hfeed
      exact .inr ⟨after, rfl, linesOf_append h (unify_both after)⟩
    · exact .inl (linesOf_append h (unify_return fun after hafter => hfeed ⟨after, hafter⟩))

/-! ### Texts above a line -/

/-- The characters that end lines. -/
def IsEnd (c : Char) : Prop :=
  c = '\n' ∨ c = '\r'

/-- The ends in two texts are those in both together, unless a carriage return and a line feed meet
    where the texts do. -/
theorem unify_append_of_apart {above rest : List Char}
    (h : above.getLast? = some '\r' → rest.head? ≠ some '\n') :
    unify (above ++ rest) = unify above ++ unify rest := by
  have hlast (c : Char) {cs : List Char} (hcs : cs.getLast? = some '\r') :
      (c :: cs).getLast? = some '\r' := by
    rw [List.getLast?_cons, hcs, Option.getD_some]
  fun_induction unify above with
  | case1 => rfl
  | case2 cs ih =>
    rw [List.cons_append, List.cons_append, unify_both, ih fun hcs => h (hlast _ (hlast _ hcs)),
      List.cons_append]
  | case3 cs hfeed ih =>
    have hnext : ∀ after, cs ++ rest ≠ '\n' :: after := by
      intro after heq
      cases cs with
      | nil => exact h rfl (congrArg List.head? heq)
      | cons c cs => exact hfeed cs (congrArg (· :: cs) (List.cons.inj heq).1)
    rw [List.cons_append, unify_return hnext, ih fun hcs => h (hlast _ hcs), List.cons_append]
  | case4 c cs _ hreturn ih =>
    rw [List.cons_append, unify_cons hreturn, ih fun hcs => h (hlast _ hcs), List.cons_append]

/-- A text that ends with the end of a line ends with a line feed once all ends are alike. -/
theorem unify_concat_end (front : List Char) {c : Char} (h : IsEnd c) :
    ∃ front', unify (front ++ [c]) = front' ++ ['\n'] := by
  rcases h with rfl | rfl
  · by_cases hreturn : front.getLast? = some '\r'
    · obtain ⟨front', rfl⟩ := List.getLast?_eq_some_iff.mp hreturn
      refine ⟨unify front', ?_⟩
      rw [List.append_assoc]
      exact unify_append_of_apart fun _ => by decide
    · exact ⟨unify front, unify_append_of_apart fun h => absurd h hreturn⟩
  · exact ⟨unify front, unify_append_of_apart fun _ => by decide⟩

/-- What is above a line is cut into lines by itself. -/
theorem linesOf_append_of_end (front : List Char) {rest : List Char} {c : Char} (h : IsEnd c)
    (hrest : rest.head? ≠ some '\n') :
    ∃ lines, linesOf (front ++ [c]) = lines ++ [[]] ∧
      linesOf (front ++ [c] ++ rest) = lines ++ linesOf rest := by
  obtain ⟨front', hfront⟩ := unify_concat_end front h
  refine ⟨front'.splitOn '\n', ?_, ?_⟩
  · rw [linesOf, hfront, List.splitOn_append_cons_self, List.splitOn_nil]
  · rw [linesOf, unify_append_of_apart fun _ => hrest, hfront, List.append_assoc,
      List.singleton_append, List.splitOn_append_cons_self, linesOf]

end LineEnds

end ILDump
