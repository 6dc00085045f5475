import Mathlib.Data.List.Basic

/-!
# Texts cut at a mark

A text cut wherever a mark stands has one piece more than there are marks, and the mark is in
none of them. So the pieces tell how often the mark comes, and pieces without the mark are found
again when the text they were put together to is cut.
-/

namespace ILDump

variable {mark : Char}

theorem not_mem_of_mem_splitOn {piece : List Char} : ∀ {cs : List Char},
    piece ∈ cs.splitOn mark → mark ∉ piece
  | [], hpiece => by
    rw [List.splitOn_nil, List.mem_singleton] at hpiece
    rw [hpiece]
    exact List.not_mem_nil
  | c :: cs, hpiece => by
    rw [List.splitOn_cons_eq_if_modifyHead] at hpiece
    by_cases hc : c = mark
    · rw [if_pos (beq_iff_eq.mpr hc), List.mem_cons] at hpiece
      rcases hpiece with rfl | hpiece
      · exact List.not_mem_nil
      · exact not_mem_of_mem_splitOn hpiece
    · rw [if_neg (by simpa using hc)] at hpiece
      obtain ⟨first, others, hsplit⟩ := List.exists_cons_of_ne_nil (List.splitOn_ne_nil mark cs)
      rw [hsplit, List.modifyHead_cons, List.mem_cons] at hpiece
      rcases hpiece with rfl | hpiece
      · have hfirst : mark ∉ first := not_mem_of_mem_splitOn (hsplit ▸ List.mem_cons_self)
        exact fun hmem => (List.mem_cons.mp hmem).elim (fun h => hc h.symm) hfirst
      · exact not_mem_of_mem_splitOn (hsplit ▸ List.mem_cons_of_mem _ hpiece)

theorem length_splitOn (cs : List Char) : (cs.splitOn mark).length = cs.count mark + 1 := by
  induction cs with
  | nil => rfl
  | cons c cs ih =>
    rw [List.splitOn_cons_eq_if_modifyHead, List.count_cons]
    split
    · rw [List.length_cons, ih]
    · rw [List.length_modifyHead, ih, Nat.add_zero]

/-- Pieces with a mark behind each are found again, and nothing behind the last mark. -/
theorem splitOn_flatMap {pieces : List (List Char)} (h : ∀ piece ∈ pieces, mark ∉ piece) :
    (pieces.flatMap (· ++ [mark])).splitOn mark = pieces ++ [[]] := by
  induction pieces with
  | nil => rfl
  | cons piece pieces ih =>
    rw [List.flatMap_cons, List.append_assoc, List.singleton_append,
      List.splitOn_append_cons_self_of_not_mem (h piece List.mem_cons_self),
      ih fun piece hpiece => h piece (List.mem_cons_of_mem _ hpiece), List.cons_append]

end ILDump
