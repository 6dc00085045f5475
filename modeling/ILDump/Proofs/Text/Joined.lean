import Mathlib.Data.List.Basic

/-!
# Texts behind each other

When a text can be read back from the front of a longer one: the text must show where it
ends. Without a certain mark it ends where the mark comes. Texts that end where a comma comes
can be joined by commas and told apart again, if none of them is empty; such are texts without
commas, and texts with commas in angle brackets only.
-/

namespace ILDump

theorem takeWhile_append_of_head? {mark : Char} {xs rest : List Char} (hx : mark ∉ xs)
    (hrest : ∀ c ∈ rest.head?, c = mark) : (xs ++ rest).takeWhile (· ≠ mark) = xs := by
  have hall : ∀ c ∈ xs, decide (c ≠ mark) = true := by
    intro c hc
    exact decide_eq_true fun h => hx (h ▸ hc)
  rw [List.takeWhile_append_of_pos hall]
  cases rest with
  | nil => simp
  | cons c rest => simp [hrest c rfl]

theorem append_inj_of_head? {mark : Char} {xs ys rest rest' : List Char} (hx : mark ∉ xs)
    (hy : mark ∉ ys) (hrest : ∀ c ∈ rest.head?, c = mark) (hrest' : ∀ c ∈ rest'.head?, c = mark)
    (heq : xs ++ rest = ys ++ rest') : xs = ys ∧ rest = rest' := by
  have hfront : xs = ys := by
    rw [← takeWhile_append_of_head? hx hrest, heq, takeWhile_append_of_head? hy hrest']
  subst hfront
  exact ⟨rfl, List.append_cancel_left heq⟩

/-! ### Texts joined by commas -/

/-- Whether texts with a property show where they end, if nothing or a comma follows. -/
def EndsAtComma (p : List Char → Prop) : Prop :=
  ∀ {xs ys rest rest' : List Char}, p xs → p ys → (∀ c ∈ rest.head?, c = ',') →
    (∀ c ∈ rest'.head?, c = ',') → xs ++ rest = ys ++ rest' → xs = ys ∧ rest = rest'

theorem endsAtComma_of_not_mem : EndsAtComma (',' ∉ ·) :=
  append_inj_of_head?

/-- Texts with a comma and a blank before each. -/
def withCommas (ps : List String) : List Char :=
  ps.flatMap fun p => ',' :: ' ' :: p.toList

theorem toList_intercalate_cons (p : String) (ps : List String) :
    (String.intercalate ", " (p :: ps)).toList = p.toList ++ withCommas ps := by
  induction ps generalizing p with
  | nil => simp [withCommas]
  | cons p' ps ih => simp [String.intercalate_cons_cons, ih, withCommas]

theorem head?_withCommas (ps : List String) : ∀ c ∈ (withCommas ps).head?, c = ',' := by
  cases ps <;> simp [withCommas]

section EndsAtComma

variable {shown : List Char → Prop} (hends : EndsAtComma shown)

include hends

/-- By induction on the lists: the first text ends where the first comma behind it comes. -/
theorem withCommas_inj : ∀ {ps qs : List String}, (∀ p ∈ ps, shown p.toList) →
    (∀ q ∈ qs, shown q.toList) → withCommas ps = withCommas qs → ps = qs
  | [], [], _, _, _ => rfl
  | [], q :: qs, _, _, heq => by simp [withCommas] at heq
  | p :: ps, [], _, _, heq => by simp [withCommas] at heq
  | p :: ps, q :: qs, hp, hq, heq => by
    have hcons : p.toList ++ withCommas ps = q.toList ++ withCommas qs := by
      simpa [withCommas] using heq
    obtain ⟨hpq, hrest⟩ := hends (hp p (by simp)) (hq q (by simp)) (head?_withCommas ps)
      (head?_withCommas qs) hcons
    have htail : ps = qs := withCommas_inj (fun p hmem => hp p (by simp [hmem]))
      (fun q hmem => hq q (by simp [hmem])) hrest
    rw [String.toList_inj.mp hpq, htail]

omit hends in
theorem eq_empty_of_append {p : String} {rest : List Char} (h : p.toList ++ rest = []) :
    p = "" :=
  String.toList_inj.mp (List.append_eq_nil_iff.mp h).1

theorem intercalate_inj {ps qs : List String} (hp : ∀ p ∈ ps, p ≠ "" ∧ shown p.toList)
    (hq : ∀ q ∈ qs, q ≠ "" ∧ shown q.toList)
    (heq : String.intercalate ", " ps = String.intercalate ", " qs) : ps = qs := by
  have hlist := congrArg String.toList heq
  cases ps with
  | nil =>
    cases qs with
    | nil => rfl
    | cons q qs =>
      rw [toList_intercalate_cons] at hlist
      exact absurd (eq_empty_of_append hlist.symm) (hq q (by simp)).1
  | cons p ps =>
    cases qs with
    | nil =>
      rw [toList_intercalate_cons] at hlist
      exact absurd (eq_empty_of_append hlist) (hp p (by simp)).1
    | cons q qs =>
      rw [toList_intercalate_cons, toList_intercalate_cons] at hlist
      obtain ⟨hpq, hrest⟩ := hends (hp p (by simp)).2 (hq q (by simp)).2 (head?_withCommas ps)
        (head?_withCommas qs) hlist
      have htail : ps = qs := withCommas_inj hends (fun p hmem => (hp p (by simp [hmem])).2)
        (fun q hmem => (hq q (by simp [hmem])).2) hrest
      rw [String.toList_inj.mp hpq, htail]

end EndsAtComma

/-! ### Commas and angle brackets -/

/-- How many angle brackets are open behind a character. Outside of them no bracket closes
    and no comma stands. -/
def bracketsBehind (opened : Nat) (c : Char) : Option Nat :=
  if c = '<' then some (opened + 1)
  else if c = '>' then (if opened = 0 then none else some (opened - 1))
  else if c = ',' then (if opened = 0 then none else some opened)
  else some opened

/-- Whether a text closes the angle brackets that it opens and has commas inside of them
    only. -/
def Closed (cs : List Char) : Prop :=
  ∀ opened, cs.foldlM bracketsBehind opened = some opened

/-- Whether a text becomes closed inside of angle brackets. -/
def ClosedInside (cs : List Char) : Prop :=
  ∀ opened, cs.foldlM bracketsBehind (opened + 1) = some (opened + 1)

namespace Closed

variable {xs ys : List Char}

theorem append (hx : Closed xs) (hy : Closed ys) : Closed (xs ++ ys) := by
  intro opened
  rw [List.foldlM_append, hx opened]
  exact hy opened

theorem of_forall : ∀ {cs : List Char}, (∀ c ∈ cs, c ∉ ['<', '>', ',']) → Closed cs
  | [], _ => fun _ => rfl
  | c :: cs, h => by
    intro opened
    have hc : bracketsBehind opened c = some opened := by
      have hmem := h c List.mem_cons_self
      simp only [List.mem_cons, List.not_mem_nil, or_false, not_or] at hmem
      rw [bracketsBehind, if_neg hmem.1, if_neg hmem.2.1, if_neg hmem.2.2]
    rw [List.foldlM_cons, hc]
    exact of_forall (fun c hmem => h c (List.mem_cons_of_mem _ hmem)) opened

theorem of_all {cs : List Char} (h : cs.all (· ∉ ['<', '>', ',']) = true) : Closed cs :=
  of_forall fun c hc => of_decide_eq_true (List.all_eq_true.mp h c hc)

theorem inside (h : Closed xs) : ClosedInside xs :=
  fun opened => h (opened + 1)

end Closed

theorem ClosedInside.append {xs ys : List Char} (hx : ClosedInside xs) (hy : ClosedInside ys) :
    ClosedInside (xs ++ ys) := by
  intro opened
  rw [List.foldlM_append, hx opened]
  exact hy opened

theorem closedInside_comma : ClosedInside [',', ' '] := fun _ => rfl

theorem ClosedInside.brackets {cs : List Char} (h : ClosedInside cs) :
    Closed ('<' :: (cs ++ ['>'])) := by
  intro opened
  change (cs ++ ['>']).foldlM bracketsBehind (opened + 1) = some opened
  rw [List.foldlM_append, h opened]
  rfl

theorem closedInside_withCommas {texts : List String} (h : ∀ s ∈ texts, Closed s.toList) :
    ClosedInside (withCommas texts) := by
  induction texts with
  | nil => exact fun _ => rfl
  | cons s texts ih =>
    have hs := (h s List.mem_cons_self).inside
    have hrest := ih fun s hmem => h s (List.mem_cons_of_mem _ hmem)
    exact (closedInside_comma.append hs).append hrest

theorem closedInside_intercalate {texts : List String} (h : ∀ s ∈ texts, Closed s.toList) :
    ClosedInside (String.intercalate ", " texts).toList := by
  cases texts with
  | nil => exact fun _ => rfl
  | cons s texts =>
    rw [toList_intercalate_cons]
    exact (h s List.mem_cons_self).inside.append
      (closedInside_withCommas fun s hmem => h s (List.mem_cons_of_mem _ hmem))

/-- A closed text does not go on with a comma. -/
theorem Closed.eq_nil_of_comma {xs zs rest : List Char} (hx : Closed xs) (hxz : Closed (xs ++ zs))
    (hcomma : ∀ c ∈ (zs ++ rest).head?, c = ',') : zs = [] := by
  cases zs with
  | nil => rfl
  | cons c zs =>
    obtain rfl : c = ',' := hcomma c rfl
    have hfold := hxz 0
    rw [List.foldlM_append, hx 0] at hfold
    cases hfold

theorem endsAtComma_closed : EndsAtComma Closed := by
  intro xs ys rest rest' hx hy hrest hrest' heq
  rcases List.append_eq_append_iff.mp heq with ⟨zs, rfl, rfl⟩ | ⟨zs, rfl, rfl⟩
  · obtain rfl := hx.eq_nil_of_comma hy hrest
    rw [List.append_nil]
    exact ⟨rfl, rfl⟩
  · obtain rfl := hy.eq_nil_of_comma hx hrest'
    rw [List.append_nil]
    exact ⟨rfl, rfl⟩

end ILDump
