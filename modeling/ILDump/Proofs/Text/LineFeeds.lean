import Mathlib.Data.List.Basic

/-!
# Counting line feeds

A text that is put together has the line feeds of its parts and of what stands between them. So
line feeds can be counted part by part, in whatever order the parts come.
-/

namespace ILDump

/-- How many line feeds a text has. -/
def feeds (s : String) : Nat :=
  s.toList.count '\n'

/-- How many line feeds several texts have together. -/
def feedsIn : List String → Nat
  | [] => 0
  | s :: texts => feeds s + feedsIn texts

theorem feeds_eq_zero {s : String} (h : '\n' ∉ s.toList) : feeds s = 0 :=
  List.count_eq_zero.mpr h

@[simp] theorem feeds_append (s t : String) : feeds (s ++ t) = feeds s + feeds t := by
  rw [feeds, String.toList_append, List.count_append]
  rfl

@[simp] theorem feedsIn_nil : feedsIn [] = 0 := rfl

@[simp] theorem feedsIn_cons (s : String) (texts : List String) :
    feedsIn (s :: texts) = feeds s + feedsIn texts := rfl

@[simp] theorem feedsIn_append (texts texts' : List String) :
    feedsIn (texts ++ texts') = feedsIn texts + feedsIn texts' := by
  induction texts with
  | nil => rw [List.nil_append, feedsIn_nil, Nat.zero_add]
  | cons s texts ih => rw [List.cons_append, feedsIn_cons, ih, feedsIn_cons, Nat.add_assoc]

theorem feedsIn_perm {texts texts' : List String} (h : texts.Perm texts') :
    feedsIn texts = feedsIn texts' := by
  induction h with
  | nil => rfl
  | cons s _ ih => rw [feedsIn_cons, feedsIn_cons, ih]
  | swap s s' texts => exact Nat.add_left_comm ..
  | trans _ _ ih ih' => exact ih.trans ih'

theorem feedsIn_eq_zero_iff {texts : List String} :
    feedsIn texts = 0 ↔ ∀ s ∈ texts, feeds s = 0 := by
  induction texts with
  | nil => simp
  | cons s texts ih => rw [feedsIn_cons, Nat.add_eq_zero_iff, ih, List.forall_mem_cons]

theorem feedsIn_flatMap {α : Type} {f g : α → List String} {xs : List α}
    (h : ∀ x ∈ xs, feedsIn (f x) = feedsIn (g x)) :
    feedsIn (xs.flatMap f) = feedsIn (xs.flatMap g) := by
  induction xs with
  | nil => rfl
  | cons x xs ih =>
    rw [List.flatMap_cons, List.flatMap_cons, feedsIn_append, feedsIn_append,
      h x List.mem_cons_self, ih fun x hx => h x (List.mem_cons_of_mem _ hx)]

theorem feedsIn_map {α : Type} {f g : α → String} {xs : List α}
    (h : ∀ x ∈ xs, feeds (f x) = feeds (g x)) : feedsIn (xs.map f) = feedsIn (xs.map g) := by
  rw [List.map_eq_flatMap, List.map_eq_flatMap]
  exact feedsIn_flatMap fun x hx => by rw [feedsIn_cons, feedsIn_cons, h x hx]

theorem feeds_join (texts : List String) : feeds (String.join texts) = feedsIn texts := by
  induction texts with
  | nil => rfl
  | cons s texts ih => rw [String.join_cons, feeds_append, ih, feedsIn_cons]

theorem feeds_intercalate {separator : String} (h : '\n' ∉ separator.toList)
    (texts : List String) : feeds (String.intercalate separator texts) = feedsIn texts := by
  induction texts with
  | nil => rfl
  | cons s texts ih =>
    cases texts with
    | nil => simp
    | cons s' texts =>
      rw [String.intercalate_cons_cons, feeds_append, feeds_append, feeds_eq_zero h, ih,
        Nat.add_zero, ← feedsIn_cons]

end ILDump
