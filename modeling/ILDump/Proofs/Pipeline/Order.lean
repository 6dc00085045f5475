import ILDump.Proofs.Pipeline.Trace

/-!
# Orders of a run

The files below a directory are taken in the order of their paths, and the stages in the
order of their ranks, stages of one rank in the order they were given in. Both are stable
sorts; here is what they give.
-/

namespace ILDump

/-! ### Paths -/
namespace Path

theorem leTexts_trans : ∀ {a b c : List String},
    leTexts a b = true → leTexts b c = true → leTexts a c = true
  | [], _, _, _, _ => rfl
  | _ :: _, [], _, hab, _ => by simp [leTexts] at hab
  | _ :: _, _ :: _, [], _, hbc => by simp [leTexts] at hbc
  | x :: a, y :: b, z :: c, hab, hbc => by
    simp only [leTexts, Bool.or_eq_true, Bool.and_eq_true, decide_eq_true_eq, beq_iff_eq] at *
    rcases hab with hxy | ⟨rfl, hab⟩
    · rcases hbc with hyz | ⟨rfl, -⟩
      · exact .inl (String.lt_trans hxy hyz)
      · exact .inl hxy
    · rcases hbc with hyz | ⟨rfl, hbc⟩
      · exact .inl hyz
      · exact .inr ⟨rfl, leTexts_trans hab hbc⟩

theorem leTexts_total : ∀ a b : List String, (leTexts a b || leTexts b a) = true
  | [], _ => rfl
  | _ :: _, [] => rfl
  | x :: a, y :: b => by
    simp only [leTexts, Bool.or_eq_true, Bool.and_eq_true, decide_eq_true_eq, beq_iff_eq]
    by_cases hxy : x < y
    · exact .inl (.inl hxy)
    · by_cases hyx : y < x
      · exact .inr (.inl hyx)
      · have heq : x = y := String.le_antisymm (String.not_lt.mp hyx) (String.not_lt.mp hxy)
        have htail := leTexts_total a b
        rw [Bool.or_eq_true] at htail
        rcases htail with hab | hba
        · exact .inl (.inr ⟨heq, hab⟩)
        · exact .inr (.inr ⟨heq.symm, hba⟩)

theorem leTexts_antisymm : ∀ {a b : List String}, leTexts a b = true → leTexts b a = true → a = b
  | [], [], _, _ => rfl
  | [], _ :: _, _, hba => by simp [leTexts] at hba
  | _ :: _, [], hab, _ => by simp [leTexts] at hab
  | x :: a, y :: b, hab, hba => by
    simp only [leTexts, Bool.or_eq_true, Bool.and_eq_true, decide_eq_true_eq, beq_iff_eq] at *
    rcases hab with hxy | ⟨rfl, hab⟩
    · rcases hba with hyx | ⟨rfl, -⟩
      · exact absurd hyx (String.lt_asymm hxy)
      · exact absurd hxy (String.lt_irrefl _)
    · rcases hba with hlt | ⟨-, hba⟩
      · exact absurd hlt (String.lt_irrefl _)
      · rw [leTexts_antisymm hab hba]

/-- Paths with one anchor that may stand before each other are the same. -/
theorem eq_of_le_of_le {p q : Path} (hanchor : p.anchor = q.anchor) (hpq : p.le q = true)
    (hqp : q.le p = true) : p = q := by
  obtain ⟨a, parts⟩ := p
  obtain ⟨b, parts'⟩ := q
  obtain rfl : a = b := hanchor
  have hkeys := leTexts_antisymm hpq hqp
  unfold comparisonKey isAbsolute at hkeys
  split at hkeys <;> simp_all

theorem mergeSort_pairwise (paths : List Path) :
    (paths.mergeSort le).Pairwise fun p q => p.le q = true := by
  refine List.pairwise_mergeSort ?_ ?_ paths
  · intro a b c hab hbc
    exact leTexts_trans hab hbc
  · intro a b
    exact leTexts_total _ _

end Path

/-! ### Stages -/
namespace Pipeline

variable {σ : Type}

def rankLE (a b : Stage σ) : Bool :=
  decide (a.rank ≤ b.rank)

/-- Stages with their places in the list, in the order of their ranks. -/
def ranked (stages : List (Stage σ)) : List (Stage σ × Nat) :=
  stages.zipIdx.mergeSort (List.zipIdxLE rankLE)

def stageOrder (stages : List (Stage σ)) : List Nat :=
  (ranked stages).map (·.2)

/-- Places of stages in the order in which the stages should run: every place once, lower
    ranks first, and of two stages with one rank the one that was given first. -/
structure IsRankOrder (stages : List (Stage σ)) (order : List Nat) : Prop where
  perm : order.Perm (List.range stages.length)
  ascending : order.Pairwise fun i j => ∀ a b, stages[i]? = some a → stages[j]? = some b →
    a.rank < b.rank ∨ a.rank = b.rank ∧ i < j

theorem rankLE_trans (a b c : Stage σ) (hab : rankLE a b = true) (hbc : rankLE b c = true) :
    rankLE a c = true := by
  simp only [rankLE, decide_eq_true_eq] at *
  omega

theorem rankLE_total (a b : Stage σ) : (rankLE a b || rankLE b a) = true := by
  simp only [rankLE, Bool.or_eq_true, decide_eq_true_eq]
  omega

theorem ranked_perm (stages : List (Stage σ)) : (ranked stages).Perm stages.zipIdx :=
  List.mergeSort_perm _ _

theorem inRankOrder_eq (stages : List (Stage σ)) :
    Stage.inRankOrder stages = (ranked stages).map (·.1) :=
  List.mergeSort_zipIdx.symm

/-- Observing stages does not change their order, since it does not change their ranks. -/
theorem inRankOrder_observedStages (stages : List (Stage σ)) :
    Stage.inRankOrder (observedStages stages) =
      (ranked stages).map fun entry => observedStage entry.2 entry.1 := by
  let withPlace (entry : Stage σ × Nat) : Stage (List Event × σ) × Nat :=
    (observedStage entry.2 entry.1, entry.2)
  have hplaces : (observedStages stages).zipIdx = stages.zipIdx.map withPlace := by
    apply List.ext_getElem
    · simp [observedStages]
    · intro i _ _
      simp [observedStages, withPlace]
  have hsort : (ranked stages).map withPlace = ranked (observedStages stages) := by
    rw [ranked, ranked, hplaces]
    apply List.map_mergeSort
    intro a _ b _
    rfl
  rw [inRankOrder_eq, ← hsort, List.map_map]
  rfl

/-- **Stages run in the order of their ranks.** -/
theorem isRankOrder_stageOrder (stages : List (Stage σ)) :
    IsRankOrder stages (stageOrder stages) where
  perm := by
    have hp := (ranked_perm stages).map (·.2)
    rwa [List.zipIdx_map_snd, ← List.range_eq_range'] at hp
  ascending := by
    have hsorted : (ranked stages).Pairwise fun a b => List.zipIdxLE rankLE a b = true :=
      List.pairwise_mergeSort (List.zipIdxLE_trans rankLE_trans)
        (List.zipIdxLE_total rankLE_total) _
    have hnodup : ((ranked stages).map (·.2)).Nodup := by
      rw [((ranked_perm stages).map _).nodup_iff, List.zipIdx_map_snd]
      exact List.nodup_range'
    rw [stageOrder, List.pairwise_map]
    rw [List.Nodup, List.pairwise_map] at hnodup
    refine (hsorted.and hnodup).imp_of_mem ?_
    intro x y hx hy ⟨hle, hne⟩ a b ha hb
    have hxa : stages[x.2]? = some x.1 :=
      List.mem_zipIdx_iff_getElem?.mp ((ranked_perm stages).mem_iff.mp hx)
    have hyb : stages[y.2]? = some y.1 :=
      List.mem_zipIdx_iff_getElem?.mp ((ranked_perm stages).mem_iff.mp hy)
    rw [hxa, Option.some.injEq] at ha
    rw [hyb, Option.some.injEq] at hb
    subst ha hb
    simp only [List.zipIdxLE, rankLE, decide_eq_true_eq] at hle
    by_cases hback : y.1.rank ≤ x.1.rank
    · by_cases hforth : x.1.rank ≤ y.1.rank
      · simp only [hforth, hback, if_true, decide_eq_true_eq] at hle
        exact .inr ⟨by omega, by omega⟩
      · simp [hforth] at hle
    · exact .inl (by omega)

theorem nodup_stageOrder (stages : List (Stage σ)) : (stageOrder stages).Nodup :=
  (isRankOrder_stageOrder stages).perm.nodup_iff.mpr List.nodup_range

end Pipeline

end ILDump
