import ILDump.Path
import ILDump.Proofs.Text.Pieces
import Mathlib.Data.List.Induction

/-!
# Components of paths

A path that was read has components that are neither empty nor a single dot and hold no
separator; in an ordinary name also `..` is ruled out. Such a path can be read back from its text.
Resolving keeps what ends in an ordinary name, and the way from one resolved path to another
tells where it leads.
-/

namespace ILDump

/-! ### Names -/

/-- What a component of a path may be. -/
structure IsComponent (s : String) : Prop where
  ne_empty : s ≠ ""
  ne_dot : s ≠ "."
  no_separator : '/' ∉ s.toList

instance (s : String) : Decidable (IsComponent s) :=
  decidable_of_iff (s ≠ "" ∧ s ≠ "." ∧ '/' ∉ s.toList)
    ⟨fun h => ⟨h.1, h.2.1, h.2.2⟩, fun h => ⟨h.ne_empty, h.ne_dot, h.no_separator⟩⟩

/-- What an entry of a directory may be called. -/
structure IsOrdinaryName (s : String) : Prop extends IsComponent s where
  ne_up : s ≠ Path.up

theorem isComponent_up : IsComponent Path.up where
  ne_empty := by decide
  ne_dot := by decide
  no_separator := by decide

/-- Something with no separator behind any text is still a component, unless it makes it a
    dot. -/
theorem isComponent_append {s suffix : String} (hs : '/' ∉ s.toList)
    (hsuffix : '/' ∉ suffix.toList) (hlength : 2 ≤ suffix.toList.length) :
    IsComponent (s ++ suffix) where
  ne_empty h := by
    have hl := congrArg (fun t => t.toList.length) h
    simp only [String.toList_append, List.length_append, String.toList_empty, List.length_nil] at hl
    omega
  ne_dot h := by
    have hl := congrArg (fun t => t.toList.length) h
    have hdot : ".".toList.length = 1 := rfl
    simp only [String.toList_append, List.length_append, hdot] at hl
    omega
  no_separator := by
    rw [String.toList_append, List.mem_append]
    exact fun h => h.elim hs hsuffix

namespace Path

/-! ### Reading -/

/-- Paths all of whose components can be written down. -/
def WellFormed (p : Path) : Prop :=
  ∀ s ∈ p.parts, IsComponent s

theorem wellFormed_ofString (s : String) : (ofString s).WellFormed := by
  intro part hpart
  obtain ⟨hmem, hkept⟩ := List.mem_filter.mp hpart
  obtain ⟨cs, hcs, rfl⟩ := List.mem_map.mp hmem
  simp only [Bool.and_eq_true, decide_eq_true_eq] at hkept
  refine ⟨hkept.1, hkept.2, ?_⟩
  rw [String.toList_ofList]
  exact not_mem_of_mem_splitOn hcs

theorem anchorOf_of_not_mem {cs : List Char} (h : '/' ∉ cs) : anchorOf cs = .relative := by
  unfold anchorOf
  split <;> simp_all

theorem ofString_of_isComponent {s : String} (h : IsComponent s) :
    ofString s = ⟨.relative, [s]⟩ := by
  have hparts : partsOf s.toList = [s] := by
    rw [partsOf, List.splitOn_eq_singleton h.no_separator]
    simp [h.ne_empty, h.ne_dot]
  rw [ofString, anchorOf_of_not_mem h.no_separator, hparts]

theorem child_of_isComponent {s : String} (h : IsComponent s) (p : Path) :
    p.child s = ⟨p.anchor, p.parts ++ [s]⟩ := by
  rw [child, ofString_of_isComponent h]
  rfl

/-! ### Writing and reading back -/

/-- Components put together with separators are found again. -/
theorem splitOn_intercalate {parts : List String} (hparts : ∀ s ∈ parts, IsComponent s)
    (hne : parts ≠ []) :
    (String.intercalate "/" parts).toList.splitOn '/' = parts.map String.toList := by
  rw [String.toList_intercalate, show "/".toList = ['/'] from rfl, List.splitOn_intercalate]
  · intro cs hcs
    obtain ⟨s, hs, rfl⟩ := List.mem_map.mp hcs
    exact (hparts s hs).no_separator
  · simpa using hne

theorem partsOf_intercalate {parts : List String} (hparts : ∀ s ∈ parts, IsComponent s) :
    partsOf (String.intercalate "/" parts).toList = parts := by
  by_cases hne : parts = []
  · subst hne
    rfl
  · rw [partsOf, splitOn_intercalate hparts hne, List.map_map]
    have hread : String.ofList ∘ String.toList = id := funext fun _ => String.ofList_toList
    rw [hread, List.map_id, List.filter_eq_self]
    intro s hs
    simp [(hparts s hs).ne_empty, (hparts s hs).ne_dot]

theorem splitOn_separator (cs : List Char) : ('/' :: cs).splitOn '/' = [] :: cs.splitOn '/' :=
  List.splitOn_append_cons_self [] cs

theorem partsOf_separator (cs : List Char) : partsOf ('/' :: cs) = partsOf cs := by
  simp [partsOf, splitOn_separator]

/-- What is put together from components does not begin with a separator. -/
theorem head?_intercalate_ne {parts : List String} (hparts : ∀ s ∈ parts, IsComponent s) :
    (String.intercalate "/" parts).toList.head? ≠ some '/' := by
  cases parts with
  | nil => decide
  | cons s parts =>
    have hs := hparts s List.mem_cons_self
    obtain ⟨c, cs, hcs⟩ := List.exists_cons_of_ne_nil (mt String.toList_eq_nil_iff.mp hs.ne_empty)
    have hc : c ≠ '/' := fun h => hs.no_separator (hcs ▸ h ▸ List.mem_cons_self)
    cases parts with
    | nil => simp [hcs, hc]
    | cons s' parts => simp [String.intercalate_cons_cons, hcs, hc]

theorem anchorOf_append (anchor : Anchor) {cs : List Char} (hcs : cs.head? ≠ some '/') :
    anchorOf (anchor.text.toList ++ cs) = anchor := by
  cases cs with
  | nil => cases anchor <;> rfl
  | cons c cs =>
    have hc : c ≠ '/' := fun h => hcs (h ▸ rfl)
    cases anchor <;> simp [Anchor.text, anchorOf, hc]

theorem partsOf_append (anchor : Anchor) (cs : List Char) :
    partsOf (anchor.text.toList ++ cs) = partsOf cs := by
  cases anchor with
  | relative => rfl
  | root => exact partsOf_separator cs
  | doubleRoot => exact (partsOf_separator _).trans (partsOf_separator cs)

/-- Writing a path down and reading it back gives the same path. -/
theorem ofString_text {p : Path} (h : p.WellFormed) : ofString p.text = p := by
  obtain ⟨anchor, parts⟩ := p
  unfold text ofString
  split
  · next hempty =>
    obtain ⟨rfl, rfl⟩ := hempty
    rfl
  · rw [String.toList_append, anchorOf_append anchor (head?_intercalate_ne h),
      partsOf_append, partsOf_intercalate h]

theorem text_inj {p q : Path} (hp : p.WellFormed) (hq : q.WellFormed) (h : p.text = q.text) :
    p = q := by
  rw [← ofString_text hp, h, ofString_text hq]

theorem getLast?_separator (cs : List Char) :
    (('/' :: cs).splitOn '/').getLast? = (cs.splitOn '/').getLast? := by
  obtain ⟨first, others, hsplit⟩ := List.exists_cons_of_ne_nil (List.splitOn_ne_nil '/' cs)
  rw [splitOn_separator, hsplit, List.getLast?_cons_cons]

theorem getLast?_append {anchor : Anchor} (hanchor : anchor ≠ .relative) (cs : List Char) :
    ((anchor.text.toList ++ cs).splitOn '/').getLast? = (cs.splitOn '/').getLast? := by
  cases anchor with
  | relative => exact absurd rfl hanchor
  | root => exact getLast?_separator cs
  | doubleRoot => exact (getLast?_separator _).trans (getLast?_separator cs)

/-- The name of a path from the root is what stands behind the last separator. -/
theorem getLast?_text {p : Path} (h : p.WellFormed) (habsolute : p.isAbsolute = true) :
    (p.text.toList.splitOn '/').getLast? = some p.name.toList := by
  have hanchor : p.anchor ≠ .relative := of_decide_eq_true habsolute
  rw [text, if_neg fun hempty => hanchor hempty.1, String.toList_append, getLast?_append hanchor]
  by_cases hne : p.parts = []
  · rw [name, hne]
    rfl
  · rw [splitOn_intercalate h hne, List.getLast?_map, name, List.getLast?_eq_some_getLast hne]
    rfl

/-! ### Resolving -/

theorem resolveParts_concat {absolute : Bool} {parts : List String} {s : String} (h : s ≠ up) :
    resolveParts absolute (parts ++ [s]) = resolveParts absolute parts ++ [s] := by
  simp [resolveParts, List.foldl_append, resolveStep, h]

/-- By induction on the components: at a root nothing stands above. -/
theorem up_not_mem_resolveParts (parts : List String) : up ∉ resolveParts true parts := by
  have hfold : ∀ (parts done : List String), up ∉ done →
      up ∉ parts.foldl (resolveStep true) done := by
    intro parts
    induction parts with
    | nil => exact fun _ h => h
    | cons part parts ih =>
      intro done hdone
      refine ih _ ?_
      unfold resolveStep
      split
      · rename_i hpart
        exact fun hmem => (List.mem_cons.mp hmem).elim (fun h => hpart h.symm) hdone
      · split
        · simp
        · rename_i last before
          have hlast : last ≠ up := fun h => hdone (by simp [h])
          rw [if_neg hlast]
          exact fun hmem => hdone (by simp [hmem])
  rw [resolveParts, List.mem_reverse]
  exact hfold parts [] (by simp)

theorem resolveParts_of_not_mem {absolute : Bool} {parts : List String} (h : up ∉ parts) :
    resolveParts absolute parts = parts := by
  induction parts using List.reverseRecOn with
  | nil => rfl
  | append_singleton parts s ih =>
    have hs : s ≠ up := fun heq => h (by simp [heq])
    rw [resolveParts_concat hs, ih fun hmem => h (by simp [hmem])]

theorem mem_of_mem_resolveParts {absolute : Bool} {parts : List String} {s : String}
    (h : s ∈ resolveParts absolute parts) : s ∈ parts := by
  have hfold : ∀ (parts done : List String), s ∈ parts.foldl (resolveStep absolute) done →
      s ∈ done ∨ s ∈ parts := by
    intro parts
    induction parts with
    | nil => exact fun _ h => .inl h
    | cons part parts ih =>
      intro done hs
      rcases ih _ hs with hs | hs
      · have hstep : s ∈ done ∨ s = part := by
          unfold resolveStep at hs
          grind
        rcases hstep with hs | hs
        · exact .inl hs
        · exact .inr (by simp [hs])
      · exact .inr (by simp [hs])
  rw [resolveParts, List.mem_reverse] at h
  exact (hfold parts [] h).resolve_left (by simp)

theorem isAbsolute_join {cwd p : Path} (hcwd : cwd.isAbsolute = true) :
    (cwd.join p).isAbsolute = true := by
  unfold join
  split
  · assumption
  · exact hcwd

theorem up_not_mem_absolute {cwd : Path} (hcwd : cwd.isAbsolute = true) (p : Path) :
    up ∉ (p.absolute cwd).parts := by
  rw [absolute, normalize, isAbsolute_join hcwd]
  exact up_not_mem_resolveParts _

theorem parts_join (cwd p : Path) :
    (cwd.join p).parts = (if p.isAbsolute then [] else cwd.parts) ++ p.parts := by
  unfold join
  split <;> rfl

theorem anchor_join (cwd p : Path) :
    (cwd.join p).anchor = if p.isAbsolute then p.anchor else cwd.anchor := by
  unfold join
  split <;> rfl

theorem anchor_absolute_eq {cwd p q : Path} (h : p.anchor = q.anchor) :
    (p.absolute cwd).anchor = (q.absolute cwd).anchor := by
  have habsolute : p.isAbsolute = q.isAbsolute := by rw [isAbsolute, isAbsolute, h]
  simp only [absolute, normalize, anchor_join, habsolute, h]

theorem wellFormed_absolute {cwd p : Path} (hcwd : cwd.WellFormed) (hp : p.WellFormed) :
    (p.absolute cwd).WellFormed := by
  intro s hs
  have hmem := mem_of_mem_resolveParts hs
  rw [parts_join, List.mem_append] at hmem
  rcases hmem with hmem | hmem
  · split at hmem
    · cases hmem
    · exact hcwd s hmem
  · exact hp s hmem

/-- A path that ends in an ordinary name, once resolved, is its parent, resolved, with that name
    behind. -/
theorem absolute_of_name {cwd p : Path} {parts : List String} {s : String}
    (hparts : p.parts = parts ++ [s]) (hs : s ≠ up) :
    (p.absolute cwd).parts = (p.parent.absolute cwd).parts ++ [s] ∧
      (p.absolute cwd).anchor = (p.parent.absolute cwd).anchor := by
  refine ⟨?_, anchor_absolute_eq rfl⟩
  have habsolute : (cwd.join p.parent).isAbsolute = (cwd.join p).isAbsolute := by
    simp only [isAbsolute, anchor_join]
    rfl
  have hparent : (cwd.join p).parts = (cwd.join p.parent).parts ++ [s] := by
    rw [parts_join, parts_join, hparts, parent, hparts, List.dropLast_concat, List.append_assoc]
    rfl
  simp only [absolute, normalize, habsolute, hparent]
  exact resolveParts_concat hs

/-! ### Ways -/

theorem commonLength_le : ∀ xs ys : List String, commonLength xs ys ≤ xs.length
  | [], _ => by simp [commonLength]
  | _ :: _, [] => by simp [commonLength]
  | x :: xs, y :: ys => by
    have htail := commonLength_le xs ys
    unfold commonLength
    split
    · simpa using htail
    · simp

theorem take_commonLength : ∀ xs ys : List String,
    ys.take (commonLength xs ys) = xs.take (commonLength xs ys)
  | [], _ => by simp [commonLength]
  | _ :: _, [] => by simp [commonLength]
  | x :: xs, y :: ys => by
    unfold commonLength
    split
    · rename_i heq
      rw [heq, List.take_succ_cons, List.take_succ_cons, take_commonLength xs ys]
    · rfl

theorem replicate_append_inj {α : Type} {a : α} : ∀ {m n : Nat} {xs ys : List α}, a ∉ xs → a ∉ ys →
    List.replicate m a ++ xs = List.replicate n a ++ ys → m = n ∧ xs = ys
  | 0, 0, _, _, _, _, h => ⟨rfl, h⟩
  | 0, n + 1, xs, ys, hx, _, h => by
    simp only [List.replicate_zero, List.nil_append, List.replicate_succ, List.cons_append] at h
    exact absurd (h ▸ List.mem_cons_self) hx
  | m + 1, 0, xs, ys, _, hy, h => by
    simp only [List.replicate_zero, List.nil_append, List.replicate_succ, List.cons_append] at h
    exact absurd (h ▸ List.mem_cons_self) hy
  | m + 1, n + 1, xs, ys, hx, hy, h => by
    simp only [List.replicate_succ, List.cons_append, List.cons.injEq, true_and] at h
    obtain ⟨hmn, hxy⟩ := replicate_append_inj hx hy h
    exact ⟨congrArg (· + 1) hmn, hxy⟩

/-- The way from a place tells where it leads. The components that go up tell how much of the
    start is shared, and what is not shared follows. -/
theorem relativeTo_inj {p q start : Path} (hp : up ∉ p.parts) (hq : up ∉ q.parts)
    (h : p.relativeTo start = q.relativeTo start) : p.parts = q.parts := by
  have hparts := congrArg Path.parts h
  simp only [relativeTo] at hparts
  obtain ⟨hups, hrest⟩ := replicate_append_inj (fun hmem => hp (List.mem_of_mem_drop hmem))
    (fun hmem => hq (List.mem_of_mem_drop hmem)) hparts
  have hlp := commonLength_le start.parts p.parts
  have hlq := commonLength_le start.parts q.parts
  have hshared : commonLength start.parts p.parts = commonLength start.parts q.parts := by omega
  calc p.parts = p.parts.take (commonLength start.parts p.parts) ++
        p.parts.drop (commonLength start.parts p.parts) := (List.take_append_drop _ _).symm
    _ = q.parts.take (commonLength start.parts q.parts) ++
        q.parts.drop (commonLength start.parts q.parts) := by
      rw [take_commonLength, take_commonLength, hrest, hshared]
    _ = q.parts := List.take_append_drop _ _

end Path

end ILDump
