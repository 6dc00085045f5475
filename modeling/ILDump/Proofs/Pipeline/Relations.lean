import ILDump.Proofs.Pipeline.Overwriting

/-!
# Relating two runs

A run of a combined pipeline and a second one, from the tree that the first has left. What
the first run did is compared with what the second may do, part by part: `Rerun.Relates` says
of two kinds of courses that, when one of the first kind has come to its result, one of the
second comes to a result, too, with the same calls of stages. It has a rule for each way
to put courses together.
-/

namespace ILDump.Pipeline

variable {ρ α α' β β' γ : Type}

/-! ### Outcomes -/

/-- Whether the stages in front of the last one came back, call by call. -/
def outcomesBelow (last : Nat) (trace : List Event) : List Bool :=
  (calls trace).filterMap fun call => if call.stage = last then none else some call.cameBack

/-- The stages in front of the last one did not do differently in their `n`-th calls. -/
def Compatible (last : Nat) (trace trace' : List Event) : Prop :=
  ∀ (n : Nat) (b b' : Bool), (outcomesBelow last trace)[n]? = some b →
    (outcomesBelow last trace')[n]? = some b' → b = b'

theorem outcomesBelow_append (last : Nat) (trace trace' : List Event) :
    outcomesBelow last (trace ++ trace') =
      outcomesBelow last trace ++ outcomesBelow last trace' := by
  rw [outcomesBelow, calls_append, List.filterMap_append]
  rfl

namespace Compatible

variable {last : Nat} {before before' after after' : List Event}

theorem symm {trace trace' : List Event} (h : Compatible last trace trace') :
    Compatible last trace' trace :=
  fun n b b' hb hb' => (h n b' b hb' hb).symm

theorem front (h : Compatible last (before ++ after) (before' ++ after')) :
    Compatible last before before' := by
  intro n b b' hb hb'
  refine h n b b' ?_ ?_
  · rw [outcomesBelow_append]
    exact List.getElem?_append_left (List.getElem?_eq_some_iff.mp hb).1 ▸ hb
  · rw [outcomesBelow_append]
    exact List.getElem?_append_left (List.getElem?_eq_some_iff.mp hb').1 ▸ hb'

theorem back (h : Compatible last (before ++ after) (before' ++ after'))
    (hsame : calls before' = calls before) : Compatible last after after' := by
  have hfront : outcomesBelow last before' = outcomesBelow last before := by
    rw [outcomesBelow, hsame, outcomesBelow]
  intro n b b' hb hb'
  refine h ((outcomesBelow last before).length + n) b b' ?_ ?_
  · rw [outcomesBelow_append, List.getElem?_append_right (by omega)]
    simpa using hb
  · rw [outcomesBelow_append, hfront, List.getElem?_append_right (by omega)]
    simpa using hb'

end Compatible

/-! ### Parts of two runs -/

/-- Checks that tell an assembly by its path and content, and reports that succeed. -/
structure Combined.Steady (c : Combined ρ) (judge : Path → Bytes → Bool) : Prop where
  judged : ∀ path st content, st.2.tree.read st.2.cwd path = .ok content →
    outcome (c.isAssembly path st) = .ok (judge path content)
  reported : ∀ line st, outcome (c.report line st) = .ok ()

/-- Stages write where contents may change, and no assembly lies there. -/
def Event.Fits (here : Place) (changed : Place → Prop) : Event → Prop
  | .called _ _ destination _ => changed (destination.place here)
  | .validated path (.ok true) => ¬ changed (path.place here)
  | _ => True

/-- What is the same in a run and in a second one: the tree between them, and where contents
    may change in any of them. -/
structure Rerun (ρ : Type) where
  pipeline : Combined ρ
  judge : Path → Bytes → Bool
  steady : pipeline.Steady judge
  here : Place
  changed : Place → Prop
  between : Tree

namespace Rerun

variable (w : Rerun ρ)

/-- Some events of a run. -/
structure Part (events : List Event) (t t' : Tree) : Prop where
  timeline : Timeline w.pipeline w.here events t t'
  fits : ∀ e ∈ events, e.Fits w.here w.changed

structure First (events : List Event) (t t' : Tree) : Prop extends w.Part events t t' where
  before : t'.Grows w.changed w.between

structure Second (events : List Event) (t t' : Tree) : Prop extends w.Part events t t' where
  after : w.between.Grows w.changed t

variable {w}

namespace Part

variable {events events' : List Event} {t t' t'' : Tree}

theorem grows (h : w.Part events t t') : t.Grows w.changed t' := by
  refine h.timeline.grows fun e he p hp => ?_
  have hfits := h.fits e he
  cases e with
  | called i source destination r =>
    cases r with
    | error f => cases hp
    | ok u =>
      obtain rfl : destination.place w.here = p := Option.some.inj hp
      exact hfits
  | _ => cases hp

theorem append_iff : w.Part (events ++ events') t t'' ↔
    ∃ t', w.Part events t t' ∧ w.Part events' t' t'' := by
  constructor
  · rintro ⟨htimeline, hfits⟩
    obtain ⟨t', h, h'⟩ := Timeline.append_iff.mp htimeline
    obtain ⟨hfits, hfits'⟩ := List.forall_mem_append.mp hfits
    exact ⟨t', ⟨h, hfits⟩, ⟨h', hfits'⟩⟩
  · rintro ⟨t', ⟨h, hfits⟩, ⟨h', hfits'⟩⟩
    exact ⟨Timeline.append_iff.mpr ⟨t', h, h'⟩, List.forall_mem_append.mpr ⟨hfits, hfits'⟩⟩

theorem exists_moment (h : w.Part events t t') {e : Event} (he : e ∈ events) :
    ∃ b b', Moment w.pipeline w.here b e b' ∧ t.Grows w.changed b ∧ b.Grows w.changed b' ∧
      b'.Grows w.changed t' := by
  obtain ⟨before, after, rfl⟩ := List.append_of_mem he
  obtain ⟨b, hbefore, hrest⟩ := append_iff.mp h
  have hsplit : w.Part ([e] ++ after) b t' := hrest
  obtain ⟨b', hone, hafter⟩ := append_iff.mp hsplit
  have hgrows := hone.grows
  obtain ⟨b'', hmoment, rfl⟩ := hone.timeline
  exact ⟨b, b', hmoment, hbefore.grows, hgrows, hafter.grows⟩

end Part

variable {events events' : List Event} {t t' t'' : Tree}

theorem First.split (h : w.First (events ++ events') t t'') :
    ∃ t', w.First events t t' ∧ w.First events' t' t'' := by
  obtain ⟨t', hpart, hpart'⟩ := Part.append_iff.mp h.toPart
  exact ⟨t', ⟨hpart, hpart'.grows.trans h.before⟩, ⟨hpart', h.before⟩⟩

theorem Second.split (h : w.Second (events ++ events') t t'') :
    ∃ t', w.Second events t t' ∧ w.Second events' t' t'' := by
  obtain ⟨t', hpart, hpart'⟩ := Part.append_iff.mp h.toPart
  exact ⟨t', ⟨hpart, h.after⟩, ⟨hpart', h.after.trans hpart.grows⟩⟩

/-! ### Relating courses -/

/-- Whenever a course of one kind has come to its result in a first run, a course of the other
    kind comes to a result in a second run, with the same calls. Of the trees and of the
    results something may be supposed and something is ensured. -/
def Relates (w : Rerun ρ) (pre : Tree → Tree → Prop) (p : Course α) (q : Course β)
    (post : Tree → Tree → α → β → Prop) : Prop :=
  ∀ ⦃events events' t₁ t₁' t₂ t₂' a r⦄, pre t₁ t₂ → p events (.ok a) → q events' r →
    w.First events t₁ t₁' → w.Second events' t₂ t₂' →
    Compatible w.pipeline.disassembler events events' →
    (∃ b, r = .ok b ∧ post t₁' t₂' a b) ∧ calls events' = calls events

/-- A relation of trees that holds on when contents change where they may. -/
def Lasts (w : Rerun ρ) (pre : Tree → Tree → Prop) : Prop :=
  ∀ ⦃t₁ t₁' t₂ t₂'⦄, t₁.Grows w.changed t₁' → t₂.Grows w.changed t₂' → pre t₁ t₂ → pre t₁' t₂'

namespace Relates

variable {pre : Tree → Tree → Prop}

theorem andThen {p : Course α} {q : Course β} {p' : α → Course α'} {q' : β → Course β'}
    {post : Tree → Tree → α → β → Prop} {post' : Tree → Tree → α' → β' → Prop}
    (h : w.Relates pre p q post)
    (h' : ∀ a b, w.Relates (fun t₁ t₂ => post t₁ t₂ a b) (p' a) (q' b) post') :
    w.Relates pre (p.Then p') (q.Then q') post' := by
  intro events events' t₁ t₁' t₂ t₂' a r hpre hp hq hfirst hsecond hcompatible
  rcases hp with _ | ⟨hp, hp'⟩
  obtain ⟨_, hfirst, hfirst'⟩ := hfirst.split
  rcases hq with hq | ⟨hq, hq'⟩
  · rw [← List.append_nil events'] at hcompatible
    obtain ⟨⟨b, hb, -⟩, -⟩ := h hpre hp hq hfirst hsecond hcompatible.front
    cases hb
  · obtain ⟨_, hsecond, hsecond'⟩ := hsecond.split
    obtain ⟨⟨b, hb, hpost⟩, hcalls⟩ := h hpre hp hq hfirst hsecond hcompatible.front
    obtain rfl := Except.ok.inj hb
    obtain ⟨hresult, hcalls'⟩ :=
      h' _ _ hpost hp' hq' hfirst' hsecond' (hcompatible.back hcalls)
    exact ⟨hresult, by rw [calls_append, calls_append, hcalls, hcalls']⟩

/-- Of the first part only those results count with which the first run goes on. -/
theorem andThenFrom {good : α → Prop} {p : Course α} {q : Course β} {p' : α → Course α'}
    {q' : β → Course β'} {post : Tree → Tree → α → β → Prop} {post' : Tree → Tree → α' → β' → Prop}
    (hgood : ∀ a events a', p' a events (.ok a') → good a)
    (h : w.Relates pre (fun events r => p events r ∧ ∀ a, r = .ok a → good a) q post)
    (h' : ∀ a b, w.Relates (fun t₁ t₂ => post t₁ t₂ a b) (p' a) (q' b) post') :
    w.Relates pre (p.Then p') (q.Then q') post' := by
  intro events events' t₁ t₁' t₂ t₂' a r hpre hp
  rcases hp with _ | ⟨hp, hp'⟩
  refine h.andThen h' hpre (.next ⟨hp, fun a ha => ?_⟩ hp')
  exact Except.ok.inj ha ▸ hgood _ _ _ hp'

theorem nothing {a : α} {b : β} {post : Tree → Tree → α → β → Prop}
    (h : ∀ t₁ t₂, pre t₁ t₂ → post t₁ t₂ a b) :
    w.Relates pre (Course.nothing (.ok a)) (Course.nothing (.ok b)) post := by
  rintro events events' t₁ t₁' t₂ t₂' a r hpre ⟨rfl, ha⟩ ⟨rfl, rfl⟩ hfirst hsecond -
  obtain rfl := Except.ok.inj ha
  obtain rfl : t₁' = t₁ := hfirst.timeline
  obtain rfl : t₂' = t₂ := hsecond.timeline
  exact ⟨⟨b, rfl, h _ _ hpre⟩, rfl⟩

theorem weaken {pre' : Tree → Tree → Prop} {p : Course α} {q : Course β}
    {post : Tree → Tree → α → β → Prop} (h : w.Relates pre p q post)
    (hpre : ∀ t₁ t₂, pre' t₁ t₂ → pre t₁ t₂) : w.Relates pre' p q post :=
  fun _ _ _ _ _ _ _ _ hpre' => h (hpre _ _ hpre')

theorem supposing {P : Prop} {p : Course α} {q : Course β} {post : Tree → Tree → α → β → Prop}
    (h : P → w.Relates pre p q post) : w.Relates (fun t₁ t₂ => P ∧ pre t₁ t₂) p q post :=
  fun _ _ _ _ _ _ _ _ hpre => h hpre.1 hpre.2

/-- Lists that are taken entry by entry give the same if each entry does. By induction on the
    first of the two courses. -/
theorem each {part : β → List γ} {p : α → Course β} {xs : List α} (hlasts : w.Lasts pre)
    (h : ∀ x ∈ xs, w.Relates pre (p x) (p x) fun _ _ a b => b = a) :
    w.Relates pre (Course.Each part p xs) (Course.Each part p xs) fun _ _ a b => b = a := by
  intro events events' t₁ t₁' t₂ t₂' a r hpre hp hq hfirst hsecond hcompatible
  generalize hresult : Except.ok a = result at hp
  induction hp generalizing events' t₁ t₂ a r with
  | done =>
    cases hresult
    cases hq
    exact ⟨⟨[], rfl, rfl⟩, rfl⟩
  | stopped _ => cases hresult
  | @next x xs before after y result hx _ ih =>
    cases result with
    | error f => cases hresult
    | ok zs =>
      cases hresult
      obtain ⟨_, hfirst, hfirst'⟩ := hfirst.split
      cases hq with
      | stopped hx' =>
        rw [← List.append_nil events'] at hcompatible
        obtain ⟨⟨b, hb, -⟩, -⟩ := h x (by simp) hpre hx hx' hfirst hsecond hcompatible.front
        cases hb
      | next hx' hxs' =>
        obtain ⟨_, hsecond, hsecond'⟩ := hsecond.split
        obtain ⟨⟨b, hb, rfl⟩, hcalls⟩ :=
          h x (by simp) hpre hx hx' hfirst hsecond hcompatible.front
        obtain rfl := Except.ok.inj hb
        obtain ⟨⟨zs', rfl, rfl⟩, hcalls'⟩ :=
          ih (fun x hx => h x (by simp [hx])) (hlasts hfirst.grows hsecond.grows hpre) hxs'
            hfirst' hsecond' (hcompatible.back hcalls) rfl
        exact ⟨⟨_, rfl, rfl⟩, by rw [calls_append, calls_append, hcalls, hcalls']⟩

end Relates

end Rerun

end ILDump.Pipeline
