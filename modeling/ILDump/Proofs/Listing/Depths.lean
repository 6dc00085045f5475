import ILDump.Listing.Writer

/-!
# Steps at their depths

The depth is shared by everything that writes: a part of a listing that did not come back to
the depth it found would shift all that follows. `visits` says at which depth each step is
taken, and `Block` describes the steps that come back by their form, line by line and level by
level. So what holds of a block can be proved from its parts, without looking at a depth.

Which texts may stand in a block outside of braces is left open: the depths do not depend on
it, but whether braces match does.
-/

namespace ILDump

namespace Step

/-! ### Depths -/

/-- The depth behind a step. -/
def next (depth : Nat) : Step → Nat
  | .line _ => depth
  | .indent => depth + 1
  | .unindent => depth - 1

/-- The depth behind all of some steps. -/
def depthAfter (depth : Nat) (steps : List Step) : Nat :=
  steps.foldl next depth

/-- Steps, each with the depth it is taken at. -/
def visits (depth : Nat) : List Step → List (Nat × Step)
  | [] => []
  | s :: steps => (depth, s) :: visits (s.next depth) steps

@[simp] theorem visits_line (depth : Nat) (text : String) (steps : List Step) :
    visits depth (.line text :: steps) = (depth, .line text) :: visits depth steps := rfl

def lineAt? : Nat × Step → Option (Nat × String)
  | (depth, .line text) => some (depth, text)
  | _ => none

/-- The lines among some steps, each with the depth it stands at. -/
def linesAt (depth : Nat) (steps : List Step) : List (Nat × String) :=
  (visits depth steps).filterMap lineAt?

theorem depthAfter_append (depth : Nat) (xs ys : List Step) :
    depthAfter depth (xs ++ ys) = depthAfter (depthAfter depth xs) ys :=
  List.foldl_append

theorem visits_append (depth : Nat) (xs ys : List Step) :
    visits depth (xs ++ ys) = visits depth xs ++ visits (depthAfter depth xs) ys := by
  induction xs generalizing depth with
  | nil => rfl
  | cons x xs ih => rw [List.cons_append, visits, ih, visits, List.cons_append]; rfl

theorem linesAt_append (depth : Nat) (xs ys : List Step) :
    linesAt depth (xs ++ ys) = linesAt depth xs ++ linesAt (depthAfter depth xs) ys := by
  rw [linesAt, visits_append, List.filterMap_append]
  rfl

@[simp] theorem linesAt_nil (depth : Nat) : linesAt depth [] = [] := rfl

@[simp] theorem linesAt_line (depth : Nat) (text : String) (steps : List Step) :
    linesAt depth (.line text :: steps) = (depth, text) :: linesAt depth steps := rfl

theorem mem_linesAt {depth k : Nat} {text : String} {steps : List Step} :
    (k, text) ∈ linesAt depth steps ↔ (k, .line text) ∈ visits depth steps := by
  rw [linesAt, List.mem_filterMap]
  constructor
  · rintro ⟨⟨k', s⟩, hmem, hline⟩
    cases s with
    | line text' =>
      cases hline
      exact hmem
    | indent => cases hline
    | unindent => cases hline
  · intro hmem
    exact ⟨_, hmem, rfl⟩

/-! ### Writing -/

theorem depth_step (o : Output) (s : Step) : (o.step s).depth = s.next o.depth := by
  cases s <;> rfl

theorem depth_run (o : Output) (steps : List Step) :
    (o.run steps).depth = depthAfter o.depth steps := by
  induction steps generalizing o with
  | nil => rfl
  | cons s steps ih =>
    have hrun : (o.run (s :: steps)).depth = depthAfter (o.step s).depth steps := ih (o.step s)
    rw [hrun, depth_step]
    rfl

/-- What is written are the lines at their depths. -/
theorem lines_run (o : Output) (steps : List Step) :
    (o.run steps).lines.toList = o.lines.toList ++
      (linesAt o.depth steps).map fun l => Output.place o.indentText l.1 l.2 := by
  induction steps generalizing o with
  | nil => simp [Output.run]
  | cons s steps ih =>
    have hrun : (o.run (s :: steps)).lines = ((o.step s).run steps).lines := rfl
    rw [hrun, ih (o.step s), depth_step]
    cases s with
    | line text => simp [Output.step, next]
    | indent => rfl
    | unindent => rfl

end Step

namespace Listing

open Step

/-! ### How lines start -/

theorem exists_words_cons (word : String) (ws : List String) :
    ∃ rest, words (word :: ws) = word ++ rest := by
  cases ws with
  | nil => exact ⟨"", by simp [words]⟩
  | cons w ws =>
    exact ⟨" " ++ words (w :: ws), by simp [words, String.intercalate_cons_cons, String.append_assoc]⟩

theorem exists_nonemptyWords_cons {word : String} (hword : word ≠ "") (ws : List String) :
    ∃ rest, nonemptyWords (word :: ws) = word ++ rest := by
  rw [nonemptyWords, List.filter_cons_of_pos (by simpa using hword)]
  exact exists_words_cons word _

/-- The first row of bytes stands behind its directive, the others behind blanks. -/
theorem mem_byteLines {directive line : String} {data : Bytes}
    (h : line ∈ byteLines directive data) :
    (∃ rest, line = directive ++ rest) ∨ ∃ rest, line = " " ++ rest := by
  unfold byteLines at h
  extract_lets indentation close at h
  generalize close (ByteRows.rows 16 data) = rows at h
  cases rows with
  | nil => simp at h
  | cons first others =>
    rcases List.mem_cons.mp h with rfl | h
    · exact .inl ⟨" = (" ++ first, by rw [String.append_assoc]⟩
    · obtain ⟨row, -, rfl⟩ := List.mem_map.mp h
      refine .inr ⟨String.ofList (List.replicate (directive.length + 3) ' ') ++ row, ?_⟩
      apply String.toList_inj.mp
      simp [indentation, List.replicate_succ]

/-! ### Blocks -/

/-- Whether a line ends what is in braces. -/
def IsClosing (text : String) : Prop :=
  text.toList.head? = some '\x7d'

instance (text : String) : Decidable (IsClosing text) :=
  inferInstanceAs (Decidable (_ = _))

/-- Whether a line neither begins nor ends what is in braces. -/
def IsPlain (text : String) : Prop :=
  text ≠ openBlock ∧ ¬ IsClosing text

instance (text : String) : Decidable (IsPlain text) :=
  inferInstanceAs (Decidable (_ ∧ _))

/-- Steps made of allowed lines, of steps one level deeper, and of such steps in braces. -/
inductive Block (allowed : String → Prop) : List Step → Prop where
  | nil : Block allowed []
  | line {text : String} {rest : List Step} :
    allowed text → Block allowed rest → Block allowed (.line text :: rest)
  | deeper {inner rest : List Step} :
    Block allowed inner → Block allowed rest → Block allowed (deeper inner ++ rest)
  | braces {closing : String} {inner rest : List Step} :
    IsClosing closing → Block allowed inner → Block allowed rest →
    Block allowed (.line openBlock :: (deeper inner ++ .line closing :: rest))

namespace Block

variable {allowed : String → Prop} {xs ys : List Step}

theorem append (hx : Block allowed xs) (hy : Block allowed ys) : Block allowed (xs ++ ys) := by
  induction hx with
  | nil => exact hy
  | line htext _ ih => exact .line htext ih
  | deeper hinner _ _ ih =>
    rw [List.append_assoc]
    exact .deeper hinner ih
  | braces hclosing hinner _ _ ih =>
    rw [List.cons_append, List.append_assoc, List.cons_append]
    exact .braces hclosing hinner ih

theorem flatten {parts : List (List Step)} (h : ∀ steps ∈ parts, Block allowed steps) :
    Block allowed parts.flatten := by
  induction parts with
  | nil => exact .nil
  | cons steps parts ih =>
    have hhead := h steps (by simp)
    have htail := ih fun steps hsteps => h steps (by simp [hsteps])
    exact hhead.append htail

theorem flatMap {α : Type} {entries : List α} {f : α → List Step}
    (h : ∀ x ∈ entries, Block allowed (f x)) : Block allowed (entries.flatMap f) := by
  refine flatten fun steps hsteps => ?_
  obtain ⟨x, hx, rfl⟩ := List.mem_map.mp hsteps
  exact h x hx

theorem lines {texts : List String} (h : ∀ text ∈ texts, allowed text) :
    Block allowed (texts.map .line) := by
  induction texts with
  | nil => exact .nil
  | cons text texts ih => exact .line (h text (by simp)) (ih fun t ht => h t (by simp [ht]))

theorem one {text : String} (h : allowed text) : Block allowed [.line text] :=
  .line h .nil

theorem ite {p : Prop} [Decidable p] (hx : p → Block allowed xs) (hy : ¬ p → Block allowed ys) :
    Block allowed (if p then xs else ys) := by
  split
  · exact hx ‹_›
  · exact hy ‹_›

theorem indented (h : Block allowed xs) : Block allowed (Listing.deeper xs) := by
  have hrest := Block.deeper h .nil
  rwa [List.append_nil] at hrest

/-- What braces hold, behind a line and with more lines behind it. -/
theorem body {head closing : String} {after : List Step} (hhead : allowed head)
    (hclosing : IsClosing closing) (hx : Block allowed xs) (hafter : Block allowed after) :
    Block allowed ([.line head, .line openBlock] ++ Listing.deeper xs ++
      (.line closing :: after)) := by
  simp only [List.cons_append, List.nil_append]
  exact .line hhead (.braces hclosing hx hafter)

/-! ### Depths in a block -/

theorem depthAfter_deeper {depth : Nat} (h : depthAfter (depth + 1) xs = depth + 1) :
    depthAfter depth (Listing.deeper xs) = depth := by
  rw [Listing.deeper, depthAfter_append]
  have hinner : depthAfter depth (.indent :: xs) = depth + 1 := h
  rw [hinner]
  rfl

/-- **A block comes back to the depth it finds.** -/
theorem depthAfter_eq (h : Block allowed xs) (depth : Nat) : depthAfter depth xs = depth := by
  induction h generalizing depth with
  | nil => rfl
  | line _ _ ih => exact ih depth
  | deeper _ _ ihinner ih =>
    rw [depthAfter_append, depthAfter_deeper (ihinner (depth + 1))]
    exact ih depth
  | @braces closing inner rest _ _ _ ihinner ih =>
    have hopen : depthAfter depth (.line openBlock :: (Listing.deeper inner ++
        .line closing :: rest)) = depthAfter depth (Listing.deeper inner ++ .line closing :: rest) :=
      rfl
    rw [hopen, depthAfter_append, depthAfter_deeper (ihinner (depth + 1))]
    exact ih depth

/-- What is behind a block stands at the depth the block has found. -/
theorem linesAt_append (h : Block allowed xs) (depth : Nat) (ys : List Step) :
    linesAt depth (xs ++ ys) = linesAt depth xs ++ linesAt depth ys := by
  rw [Step.linesAt_append, h.depthAfter_eq]

theorem visits_deeper (h : Block allowed xs) (depth : Nat) (rest : List Step) :
    visits depth (Listing.deeper xs ++ rest) =
      (depth, .indent) :: visits (depth + 1) xs ++ (depth + 1, .unindent) :: visits depth rest := by
  rw [visits_append, h.indented.depthAfter_eq, Listing.deeper, List.cons_append, visits,
    visits_append]
  simp only [next, h.depthAfter_eq]
  simp [visits]

theorem linesAt_deeper (h : Block allowed xs) (depth : Nat) (rest : List Step) :
    linesAt depth (Listing.deeper xs ++ rest) = linesAt (depth + 1) xs ++ linesAt depth rest := by
  rw [linesAt, h.visits_deeper, List.cons_append, List.filterMap_cons_none rfl,
    List.filterMap_append, List.filterMap_cons_none rfl]
  rfl

end Block

end Listing

end ILDump
