import ILDump.Proofs.Pipeline.Relations

/-!
# Running again

In a second run the same files are found to be assemblies, since no stage writes where one
lies; they are taken through the stages in the same order, and a stage that missed its tool
misses it again. So the second run comes to the result of the first, with the same calls.
-/

namespace ILDump.Pipeline

variable {ρ : Type}

namespace Rerun

variable {w : Rerun ρ} {events events' : List Event} {t t' : Tree}

/-! ### Files in both runs -/

/-- What is accepted in both runs: an assembly at a place where nothing changes. -/
def Accepted (w : Rerun ρ) (path : Path) : Prop :=
  ¬ w.changed (path.place w.here) ∧ ∃ content x,
    w.between.node? (path.place w.here) = some (.file content x) ∧ w.judge path content = true

/-- Where nothing changes, a tree has the files that are there between the runs. -/
def Agrees (w : Rerun ρ) (t : Tree) : Prop :=
  ∀ p, ¬ w.changed p → ∀ c x,
    t.node? p = some (.file c x) ↔ w.between.node? p = some (.file c x)

theorem First.agrees (h : w.First events t t') : w.Agrees t :=
  (h.grows.trans h.before).unchanged

theorem Second.agrees (h : w.Second events t t') : w.Agrees t :=
  fun p hp c x => (h.after.unchanged p hp c x).symm

/-- A file is found to be an assembly if it is one that is accepted in both runs. -/
theorem Part.validated (h : w.Part events t t') (hagrees : w.Agrees t) {path : Path}
    {r : Except Failure Bool} (he : .validated path r ∈ events)
    (hfile : t.isFile w.here path = true) : ∃ b, r = .ok b ∧ (b = true ↔ w.Accepted path) := by
  obtain ⟨b, b', hmoment, hgrows, -, -⟩ := h.exists_moment he
  obtain ⟨content, x, hlookup⟩ := Tree.isFile_iff.mp (hgrows.isFile hfile)
  obtain ⟨there, hlocate, hnode⟩ := Tree.lookup?_eq_some_iff.mp hlookup
  obtain rfl := Tree.locate_eq_place (hmoment.proper.up_not_mem hmoment.standing) hlocate
  obtain ⟨st, rfl, hcwd, hr⟩ := hmoment.answers
  have hread : st.2.tree.read st.2.cwd path = .ok content := by
    rw [hcwd]
    exact Tree.read_eq_ok_iff.mpr ⟨x, hlookup⟩
  rw [w.steady.judged path st content hread] at hr
  -- nobody writes where an assembly lies, so its content is the one between the runs
  have hagree : ¬ w.changed (path.place w.here) →
      w.between.node? (path.place w.here) = some (.file content x) := fun hsame =>
    (hagrees _ hsame content x).mp ((hgrows.unchanged _ hsame content x).mpr hnode)
  refine ⟨_, hr, fun hjudge => ?_, ?_⟩
  · have hsame : ¬ w.changed (path.place w.here) := by
      have hfits := h.fits _ he
      rw [hr, hjudge] at hfits
      exact hfits
    exact ⟨hsame, content, x, hagree hsame, hjudge⟩
  · rintro ⟨hsame, content', x', hnode', hjudge⟩
    rw [hagree hsame] at hnode'
    cases hnode'
    exact hjudge

open Classical in
/-- Of some files those are kept that are accepted in both runs. By induction on the discovery;
    each check leaves files files. -/
theorem Part.discovery {paths : List Path} {result : Except Failure (List Path)}
    (hdiscovery : Discovery paths events result) : ∀ {t : Tree}, w.Part events t t' → w.Agrees t →
    (∀ path ∈ paths, t.isFile w.here path = true) →
    result = .ok (paths.filter fun path => decide (w.Accepted path)) := by
  induction hdiscovery with
  | done =>
    intro t h hagrees hfiles
    rfl
  | stopped =>
    intro t h hagrees hfiles
    obtain ⟨b, hb, -⟩ := h.validated hagrees List.mem_cons_self (hfiles _ (by simp))
    cases hb
  | @next path rest accepted events result _ ih =>
    intro t h hagrees hfiles
    obtain ⟨b, hb, haccepted⟩ := h.validated hagrees List.mem_cons_self (hfiles path (by simp))
    obtain rfl := Except.ok.inj hb
    have hsplit : w.Part ([.validated path (.ok accepted)] ++ events) t t' := h
    obtain ⟨between, hone, hrest⟩ := Part.append_iff.mp hsplit
    have hagrees' : w.Agrees between := fun p hp c x =>
      (hone.grows.unchanged p hp c x).symm.trans (hagrees p hp c x)
    have hfiles' : ∀ path ∈ rest, between.isFile w.here path = true := fun path hpath =>
      hone.grows.isFile (hfiles path (by simp [hpath]))
    rw [ih hrest hagrees' hfiles', List.filter_cons]
    cases accepted <;> simp_all [Except.map]

/-! ### Looking at an input -/

theorem calls_of_looks (h : ∀ e ∈ events, e.isLook = true) : calls events = [] := by
  refine List.filterMap_eq_nil_iff.mpr fun e he => ?_
  have hlook := h e he
  cases e with
  | called => cases hlook
  | _ => rfl

/-- What an input is in both runs, once the first has looked at it. -/
def Leads (w : Rerun ρ) (path : Path) (kind : InputKind) (t₁ t₂ : Tree) : Prop :=
  match kind with
  | .file => t₁.isFile w.here path = true ∧ t₂.isFile w.here path = true
  | .directory => t₁.isDirectory w.here path = true

theorem lasts_leads (path : Path) (kind : InputKind) : w.Lasts (w.Leads path kind) := by
  intro t₁ t₁' t₂ t₂' h₁ h₂ hpre
  cases kind with
  | file => exact ⟨h₁.isFile hpre.1, h₂.isFile hpre.2⟩
  | directory => exact h₁.isDirectory hpre

namespace Relates

variable {pre : Tree → Tree → Prop}

theorem remark (hlasts : w.Lasts pre) (level : LogLevel) :
    w.Relates pre (Remark level) (Remark level) fun t₁ t₂ _ _ => pre t₁ t₂ := by
  intro events events' t₁ t₁' t₂ t₂' a r hpre hp hq hfirst hsecond _
  have hcalls : calls events' = calls events := by
    rw [calls_of_looks (OnlyLooks.remark level _ _ hp),
      calls_of_looks (OnlyLooks.remark level _ _ hq)]
  cases hq with
  | @remark text r =>
    obtain ⟨b, b', hmoment, -⟩ := hsecond.exists_moment (List.mem_singleton_self _)
    exact ⟨⟨(), hmoment.answers, hlasts hfirst.grows hsecond.grows hpre⟩, hcalls⟩

/-- What an input was found to be in the first run it is found to be in the second. -/
theorem probe (path : Path) :
    w.Relates (fun _ _ => True)
      (fun events r => Course.call (.probed path) events r ∧ ∀ a, r = .ok a → a ≠ none)
      (Course.call (.probed path))
      fun t₁ t₂ a b => ∃ kind, a = some kind ∧ b = some kind ∧ w.Leads path kind t₁ t₂ := by
  rintro events events' t₁ t₁' t₂ t₂' a r - ⟨rfl, hsome⟩ rfl hfirst hsecond -
  obtain ⟨b₁, _, hmoment₁, -, hstep₁, hafter₁⟩ := hfirst.exists_moment (List.mem_singleton_self _)
  obtain ⟨b₂, _, hmoment₂, hbefore₂, hstep₂, hafter₂⟩ :=
    hsecond.exists_moment (List.mem_singleton_self _)
  have hgrows₁ : b₁.Grows w.changed t₁' := hstep₁.trans hafter₁
  have hgrows₂ : b₂.Grows w.changed t₂' := hstep₂.trans hafter₂
  have hgrows : b₁.Grows w.changed b₂ :=
    ((hgrows₁.trans hfirst.before).trans hsecond.after).trans hbefore₂
  cases a with
  | none => exact absurd rfl (hsome none rfl)
  | some kind =>
    have hleads₁ := kindAt_eq_some_iff.mp hmoment₁.answers.symm
    have hleads₂ := leadsTo_of_grows hgrows hleads₁
    have hanswer : r = .ok (some kind) := hmoment₂.answers.trans (kindAt_eq_some_iff.mpr hleads₂)
    refine ⟨⟨some kind, hanswer, kind, rfl, rfl, ?_⟩, rfl⟩
    cases kind with
    | file => exact ⟨hgrows₁.isFile hleads₁, hgrows₂.isFile hleads₂⟩
    | directory => exact hgrows₁.isDirectory hleads₁

open Classical in
/-- Both runs find the same files that are accepted in both, and in the same order. -/
theorem files {plan : Plan}
    (hpattern : ∀ pattern, SearchPattern.ofString plan.pattern = .ok pattern →
      ∀ part ∈ pattern.parts, part.Uses (· ≠ Path.up)) (path : Path) (kind : InputKind) :
    w.Relates (w.Leads path kind) (Files plan path kind) (Files plan path kind)
      fun t₁ t₂ a b => (∀ q ∈ a, t₁.isFile w.here q = true) ∧ (∀ q ∈ b, t₂.isFile w.here q = true) ∧
        (a.filter fun q => decide (w.Accepted q)) = b.filter fun q => decide (w.Accepted q) := by
  intro events events' t₁ t₁' t₂ t₂' a r hpre hp hq hfirst hsecond _
  have hcalls : calls events' = calls events := by
    rw [calls_of_looks (OnlyLooks.files plan path kind _ _ hp),
      calls_of_looks (OnlyLooks.files plan path kind _ _ hq)]
  refine ⟨?_, hcalls⟩
  generalize hresult : Except.ok a = result at hp
  cases hp with
  | file =>
    cases hresult
    cases hq
    obtain ⟨hfile₁, hfile₂⟩ := hpre
    refine ⟨_, rfl, ?_, ?_, rfl⟩
    · simpa using hfirst.grows.isFile hfile₁
    · simpa using hsecond.grows.isFile hfile₂
  | unsearched => cases hresult
  | @directory found₁ sorted₁ text₁ r₁ hperm₁ hsorted₁ =>
    obtain ⟨b₁, _, hmoment₁, hbefore₁, hstep₁, hafter₁⟩ := hfirst.exists_moment List.mem_cons_self
    obtain ⟨pattern, hread, rfl⟩ := foundBelow_eq_ok hmoment₁.answers.symm
    have ha : a = sorted₁ := by
      cases r₁ with
      | error f => cases hresult
      | ok u => exact Except.ok.inj hresult
    subst ha
    have hfound₁ : ∀ q ∈ a, t₁'.isFile w.here q = true := fun q hq =>
      (hstep₁.trans hafter₁).isFile (Tree.mem_filesBelow.mp (hperm₁.mem_iff.mp hq)).2.2.2
    cases hq with
    | unsearched =>
      obtain ⟨b₂, _, hmoment₂, -⟩ := hsecond.exists_moment (List.mem_singleton_self _)
      have hanswer : _ = foundBelow b₂ w.here path plan.pattern := hmoment₂.answers
      rw [foundBelow, hread] at hanswer
      cases hanswer
    | @directory found₂ sorted₂ text₂ r₂ hperm₂ hsorted₂ =>
      obtain ⟨b₂, _, hmoment₂, hbefore₂, hstep₂, hafter₂⟩ :=
        hsecond.exists_moment List.mem_cons_self
      obtain ⟨_, _, hlogged, -⟩ :=
        hsecond.exists_moment (List.mem_cons_of_mem _ (List.mem_singleton_self _))
      obtain rfl : r₂ = .ok () := hlogged.answers
      have hanswer : Except.ok found₂ = foundBelow b₂ w.here path plan.pattern := hmoment₂.answers
      rw [foundBelow, hread] at hanswer
      obtain rfl := Except.ok.inj hanswer
      have hgrows : b₁.Grows w.changed b₂ :=
        (((hstep₁.trans hafter₁).trans hfirst.before).trans hsecond.after).trans hbefore₂
      refine ⟨sorted₂, rfl, hfound₁, fun q hq => (hstep₂.trans hafter₂).isFile
        (Tree.mem_filesBelow.mp (hperm₂.mem_iff.mp hq)).2.2.2, ?_⟩
      -- in the order of their paths, the same files are the same list
      have hperm : ((b₁.filesBelow w.here path pattern).filter fun q => decide (w.Accepted q)).Perm
          ((b₂.filesBelow w.here path pattern).filter fun q => decide (w.Accepted q)) := by
        refine (List.perm_ext_iff_of_nodup ((Tree.nodup_filesBelow ..).filter _)
          ((Tree.nodup_filesBelow ..).filter _)).mpr fun q => ?_
        simp only [List.mem_filter, decide_eq_true_eq]
        exact and_congr_left fun haccepted => (hgrows.mem_filesBelow_iff hmoment₁.proper
          hmoment₂.proper hmoment₁.standing (hpattern pattern hread) (hbefore₁.isDirectory hpre)
          haccepted.1).symm
      refine List.Perm.eq_of_pairwise ?_ (hsorted₁.filter _) (hsorted₂.filter _)
        (((hperm₁.filter _).trans hperm).trans (hperm₂.filter _).symm)
      intro p q hp hq
      refine Path.eq_of_le_of_le ?_
      rw [Tree.anchor_of_mem_filesBelow (hperm₁.mem_iff.mp (List.mem_of_mem_filter hp)),
        Tree.anchor_of_mem_filesBelow (hperm₂.mem_iff.mp (List.mem_of_mem_filter hq))]

open Classical in
/-- Where both runs found the same files that are accepted in both, these are kept in both. -/
theorem discovery (paths paths' : List Path) :
    w.Relates (fun t₁ t₂ => (∀ q ∈ paths, t₁.isFile w.here q = true) ∧
        (∀ q ∈ paths', t₂.isFile w.here q = true) ∧
        (paths.filter fun q => decide (w.Accepted q)) =
          paths'.filter fun q => decide (w.Accepted q))
      (Discovery paths) (Discovery paths')
      fun t₁ _ a b => b = a ∧ ∀ q ∈ a, w.Accepted q ∧ t₁.isFile w.here q = true := by
  rintro events events' t₁ t₁' t₂ t₂' a r ⟨hfiles₁, hfiles₂, hsame⟩ hp hq hfirst hsecond -
  have hcalls : calls events' = calls events := by
    rw [calls_of_looks (OnlyLooks.discovery paths _ _ hp),
      calls_of_looks (OnlyLooks.discovery paths' _ _ hq)]
  obtain rfl := Except.ok.inj (Part.discovery hp hfirst.toPart hfirst.agrees hfiles₁)
  rw [Part.discovery hq hsecond.toPart hsecond.agrees hfiles₂, ← hsame]
  refine ⟨⟨_, rfl, rfl, fun q hq => ?_⟩, hcalls⟩
  obtain ⟨hmem, haccepted⟩ := List.mem_filter.mp hq
  exact ⟨of_decide_eq_true haccepted, hfirst.grows.isFile (hfiles₁ q hmem)⟩

end Relates

/-! ### Taking a file through the stages -/

section File

variable {plan : Plan} {order lower : List Nat} {source destination : Path}

theorem calls_through (done : List Nat) :
    calls (through done source destination) = done.map fun i => ⟨i, source, destination, true⟩ := by
  have hdone : calls (done.map fun i => .called i source destination (.ok ())) =
      done.map fun i => ⟨i, source, destination, true⟩ := by
    rw [calls, List.filterMap_map]
    exact congrFun List.filterMap_eq_map done
  rw [through, calls_append, hdone]
  rfl

theorem calls_cons_error {i : Nat} {f : Failure} {rest : List Event} (hrest : calls rest = []) :
    calls (.called i source destination (.error f) :: rest) =
      [⟨i, source, destination, false⟩] := by
  have hcall : (Event.called i source destination (.error f)).call? =
      some ⟨i, source, destination, false⟩ := rfl
  rw [calls, List.filterMap_cons_some hcall]
  exact congrArg _ hrest

theorem outcomesBelow_through {last : Nat} {done : List Nat} (hdone : last ∉ done) :
    outcomesBelow last (through done source destination) = List.replicate done.length true := by
  rw [outcomesBelow, calls_through, List.filterMap_map]
  induction done with
  | nil => rfl
  | cons i done ih =>
    obtain ⟨hi, hdone⟩ := not_or.mp (mt List.mem_cons.mpr hdone)
    rw [List.filterMap_cons, ih hdone]
    simp [Ne.symm hi, List.replicate_succ]

/-- A stage that misses its tool in one run does not come back in the other. -/
theorem not_compatible_of_stopped {last i : Nat} {done further : List Nat} {f : Failure}
    {rest tail : List Event} (hdone : last ∉ done) (hfurther : last ∉ further) (hi : i ≠ last)
    (hlength : done.length < further.length) :
    ¬ Compatible last (through done source destination ++
        .called i source destination (.error f) :: rest)
      (through further source destination ++ tail) := by
  intro h
  have hstopped : outcomesBelow last (.called i source destination (.error f) :: rest) =
      false :: outcomesBelow last rest := by
    simp [outcomesBelow, calls, Event.call?, Except.isOk, Except.toBool, hi]
  have hmissed := h done.length false true
  rw [outcomesBelow_append, outcomesBelow_append, outcomesBelow_through hdone,
    outcomesBelow_through hfurther, hstopped] at hmissed
  refine absurd (hmissed ?_ ?_) (by simp)
  · rw [List.getElem?_append_right (by simp)]
    simp
  · rw [List.getElem?_append_left (by simpa using hlength)]
    simp [hlength]

/-- A stage in front of the last one has fewer stages before it. -/
theorem length_lt_of_split {done later : List Nat} {last i : Nat}
    (hsplit : lower ++ [last] = done ++ i :: later) (hi : i ≠ last) :
    done.length < lower.length := by
  have hlength := congrArg List.length hsplit
  simp only [List.length_append, List.length_cons, List.length_nil] at hlength
  by_contra hle
  obtain ⟨-, htail⟩ := List.append_inj hsplit (by omega)
  exact hi (List.cons.inj htail).1.symm

/-- If a stage misses its tool for a file in both runs, it is the same stage. -/
theorem eq_of_stopped {last i i' : Nat} {done later done' later' : List Nat} {f f' : Failure}
    {rest rest' : List Event} (hnodup : (lower ++ [last]).Nodup)
    (hsplit : lower ++ [last] = done ++ i :: later)
    (hsplit' : lower ++ [last] = done' ++ i' :: later') (hi : i ≠ last) (hi' : i' ≠ last)
    (hcompatible : Compatible last
      (through done source destination ++ .called i source destination (.error f) :: rest)
      (through done' source destination ++ .called i' source destination (.error f') :: rest')) :
    done = done' ∧ i = i' := by
  have hdone := last_not_mem_of_split hnodup hsplit
  have hdone' := last_not_mem_of_split hnodup hsplit'
  have hlength : done.length = done'.length := by
    rcases Nat.lt_trichotomy done.length done'.length with hlt | heq | hlt
    · exact absurd hcompatible (not_compatible_of_stopped hdone hdone' hi hlt)
    · exact heq
    · exact absurd hcompatible.symm (not_compatible_of_stopped hdone' hdone hi' hlt)
  obtain ⟨hsame, hrest⟩ := List.append_inj (hsplit.symm.trans hsplit') hlength
  exact ⟨hsame, (List.cons.inj hrest).1⟩

theorem Part.logged (h : w.Part events t t') {level : LogLevel} {text : String}
    {r : Except Failure Unit} (he : .logged level text r ∈ events) : r = .ok () := by
  obtain ⟨b, b', hmoment, -⟩ := h.exists_moment he
  exact hmoment.answers

theorem Part.reported (h : w.Part events t t') {line : String} {r : Except Failure Unit}
    (he : .reported line r ∈ events) : r = .ok () := by
  obtain ⟨b, b', hmoment, -⟩ := h.exists_moment he
  obtain ⟨st, rfl⟩ := hmoment.answers
  exact w.steady.reported line st

/-- The disassembler is the one stage that fails for other reasons than a missing tool, and it
    fails for no other. -/
theorem Part.called_error (h : w.Part events t t') {i : Nat} {f : Failure}
    (he : .called i source destination (.error f) ∈ events) :
    i = w.pipeline.disassembler ↔ ∀ d, f ≠ .diagnosed .tool d := by
  obtain ⟨b, b', hmoment, -⟩ := h.exists_moment he
  have hanswers : if i = w.pipeline.disassembler
      then Disassembles w.pipeline w.here b b' source destination (.error f)
      else ∀ f', Except.error f = (.error f' : Except Failure Unit) →
        ∃ d, f' = .diagnosed .tool d :=
    hmoment.answers
  split at hanswers
  · rename_i hi
    exact ⟨fun _ => (hanswers.failed f rfl).2, fun _ => hi⟩
  · rename_i hi
    obtain ⟨d, rfl⟩ := hanswers f rfl
    exact ⟨fun heq => absurd heq hi, fun hnone => absurd rfl (hnone d)⟩

/-- How a file goes that is accepted in both runs and gets its directory: a stage in front of
    the disassembler misses its tool, the disassembler fails, or the file leaves a record. -/
theorem Part.dispatch_cases {c : Candidate} {result : Except Failure (Option Record)}
    (hnodup : (lower ++ [w.pipeline.disassembler]).Nodup) (h : w.Part events t t')
    (hagrees : w.Agrees t) (haccepted : w.Accepted c.path) (hfile : t.isFile w.here c.path = true)
    (hhome : ∀ f, .madeDirectories (plan.destination c).parent (.error f) ∉ events)
    (hdispatch : Dispatch plan (lower ++ [w.pipeline.disassembler]) c events result) :
    (∃ done i later f rest, lower ++ [w.pipeline.disassembler] = done ++ i :: later ∧
        i ≠ w.pipeline.disassembler ∧ calls rest = [] ∧ result = .ok none ∧
        events = through done c.path (plan.destination c) ++
          .called i c.path (plan.destination c) (.error f) :: rest) ∨
      (∃ f, events = through lower c.path (plan.destination c) ++
          [.called w.pipeline.disassembler c.path (plan.destination c) (.error f)] ∧
        result = .error f) ∨
      (∃ r, result = .ok (some ⟨c.path, plan.destination c⟩) ∧
        events = through (lower ++ [w.pipeline.disassembler]) c.path (plan.destination c) ++
          [.reported (Record.line ⟨c.path, plan.destination c⟩) r]) := by
  have hvalidated : ∀ {r}, .validated c.path r ∈ events → r = .ok true := by
    intro r he
    obtain ⟨b, rfl, hb⟩ := h.validated hagrees he hfile
    rw [hb.mpr haccepted]
  cases hdispatch with
  | unchecked => cases hvalidated List.mem_cons_self
  | rejected => cases hvalidated List.mem_cons_self
  | homeless => exact absurd (List.mem_cons_of_mem _ List.mem_cons_self) (hhome _)
  | @toolMissing done later i d text r hsplit =>
    have hi : i ≠ w.pipeline.disassembler := fun heq =>
      (h.called_error (List.mem_append_right _ List.mem_cons_self)).mp heq d rfl
    obtain rfl := h.logged (List.mem_append_right _ (List.mem_cons_of_mem _ List.mem_cons_self))
    exact .inl ⟨done, i, later, _, _, hsplit, hi, rfl, rfl, rfl⟩
  | @failed done later i f hsplit hf =>
    obtain rfl := (h.called_error (List.mem_append_right _ List.mem_cons_self)).mpr hf
    have hlower : w.pipeline.disassembler ∉ lower := last_not_mem_of_split hnodup rfl
    obtain rfl : lower = done :=
      ((List.append_cons_inj_of_notMem hlower List.not_mem_nil).mp hsplit).1
    exact .inr (.inl ⟨f, rfl, rfl⟩)
  | @completed r =>
    obtain rfl := h.reported (List.mem_append_right _ List.mem_cons_self)
    exact .inr (.inr ⟨_, rfl, rfl⟩)

/-- What came to be in a first run is there in a second one. -/
theorem First.grows_second {b : Tree} {events₁ events₂ : List Event} {t₁ t₁' t₂ t₂' : Tree}
    (hfirst : w.First events₁ t₁ t₁') (hsecond : w.Second events₂ t₂ t₂')
    (hgrows : b.Grows w.changed t₁') : b.Grows w.changed t₂ :=
  (hgrows.trans hfirst.before).trans hsecond.after

section Both

variable {events₁ events₂ : List Event} {t₁ t₁' t₂ t₂' : Tree}
  (hfirst : w.First events₁ t₁ t₁') (hsecond : w.Second events₂ t₂ t₂')
include hfirst hsecond

/-- A directory that a first run has made is there in a second one. -/
theorem First.madeDirectories {path : Path} {r : Except Failure Unit}
    (h₁ : .madeDirectories path (.ok ()) ∈ events₁) (h₂ : .madeDirectories path r ∈ events₂) :
    r = .ok () := by
  obtain ⟨b₁, b₁', hmoment₁, -, -, hafter₁⟩ := hfirst.exists_moment h₁
  obtain ⟨b₂, b₂', hmoment₂, hbefore₂, -⟩ := hsecond.exists_moment h₂
  obtain ⟨hmade, -⟩ := hmoment₁.answers
  obtain ⟨-, hthere⟩ := hmoment₂.answers
  exact hthere (((hfirst.grows_second hsecond hafter₁).trans hbefore₂).isDirectory (hmade rfl))

/-- A listing that the disassembler has written in a first run it writes in a second one. -/
theorem First.disassembled {r : Except Failure Unit} (hsource : ¬ w.changed (source.place w.here))
    (h₁ : .called w.pipeline.disassembler source destination (.ok ()) ∈ events₁)
    (h₂ : .called w.pipeline.disassembler source destination r ∈ events₂) : r = .ok () := by
  obtain ⟨b₁, b₁', hmoment₁, -, hstep₁, hafter₁⟩ := hfirst.exists_moment h₁
  obtain ⟨b₂, b₂', hmoment₂, hbefore₂, -⟩ := hsecond.exists_moment h₂
  have hdoes₁ : Disassembles w.pipeline w.here b₁ b₁' source destination (.ok ()) := by
    simpa [Answers] using hmoment₁.answers
  have hdoes₂ : Disassembles w.pipeline w.here b₂ b₂' source destination r := by
    simpa [Answers] using hmoment₂.answers
  have hgrows : b₁'.Grows w.changed b₂ := (hfirst.grows_second hsecond hafter₁).trans hbefore₂
  obtain ⟨content, hlisting, hwritten⟩ := hdoes₁.done rfl
  obtain ⟨-, -, x, hlookup⟩ := hwritten.step hmoment₁.proper hmoment₁.standing
  -- where the first run has written, the second one finds a file and may write again
  obtain ⟨content', x', hlookup'⟩ :=
    Tree.isFile_iff.mp (hgrows.isFile (Tree.isFile_iff.mpr ⟨content, x, hlookup⟩))
  obtain ⟨there, hlocate, hnode⟩ := Tree.lookup?_eq_some_iff.mp hlookup'
  refine hdoes₂.possible content there ?_ hlocate (by simp [hnode])
  exact listing?_of_grows (hstep₁.trans hgrows) hmoment₁.proper hmoment₁.standing hsource hlisting

end Both

/-- A file that is accepted in both runs goes the same way in both. -/
theorem Relates.dispatch (hnodup : (lower ++ [w.pipeline.disassembler]).Nodup) (c : Candidate) :
    w.Relates (fun t₁ _ => w.Accepted c.path ∧ t₁.isFile w.here c.path = true)
      (Dispatch plan (lower ++ [w.pipeline.disassembler]) c)
      (Dispatch plan (lower ++ [w.pipeline.disassembler]) c) fun _ _ a b => b = a := by
  rintro events₁ events₂ t₁ t₁' t₂ t₂' a r ⟨haccepted, hfile⟩ hp hq hfirst hsecond hcompatible
  have hlower : w.pipeline.disassembler ∉ lower := last_not_mem_of_split hnodup rfl
  have hhome₁ : ∀ f, .madeDirectories (plan.destination c).parent (.error f) ∉ events₁ := by
    intro f he
    have hsettled : ∀ e ∈ events₁, e.fatal? = none := EndsInTime.dispatch plan c _ _ hp
    cases hsettled _ he
  have hfirst_cases := hfirst.dispatch_cases hnodup hfirst.agrees haccepted hfile hhome₁ hp
  -- the directory of the destination was made in the first run
  have hmade₁ : .madeDirectories (plan.destination c).parent (.ok ()) ∈ events₁ := by
    rcases hfirst_cases with ⟨_, _, _, _, _, -, -, -, -, rfl⟩ | ⟨_, rfl, -⟩ | ⟨_, -, rfl⟩ <;>
      simp [through]
  have hhome₂ : ∀ f, .madeDirectories (plan.destination c).parent (.error f) ∉ events₂ := by
    intro f he
    cases hfirst.madeDirectories hsecond hmade₁ he
  have hfile₂ : t₂.isFile w.here c.path = true :=
    (hfirst.grows_second hsecond hfirst.grows).isFile hfile
  have hsecond_cases := hsecond.dispatch_cases hnodup hsecond.agrees haccepted hfile₂ hhome₂ hq
  -- either both miss the same tool, or both leave a record
  rcases hfirst_cases with
    ⟨done, i, later, f, rest, hsplit, hi, hrest, hresult, rfl⟩ | ⟨f, -, hresult⟩ | ⟨_, hresult, rfl⟩
  · obtain rfl := Except.ok.inj hresult
    have hdone := last_not_mem_of_split hnodup hsplit
    have hlt := length_lt_of_split hsplit hi
    rcases hsecond_cases with
      ⟨done', i', later', f', rest', hsplit', hi', hrest', rfl, rfl⟩ | ⟨f', rfl, -⟩ | ⟨_, -, rfl⟩
    · obtain ⟨rfl, rfl⟩ := eq_of_stopped hnodup hsplit hsplit' hi hi' hcompatible
      refine ⟨⟨none, rfl, rfl⟩, ?_⟩
      rw [calls_append, calls_append, calls_cons_error hrest, calls_cons_error hrest']
    · exact absurd hcompatible (not_compatible_of_stopped hdone hlower hi hlt)
    · rw [through_concat, List.append_assoc] at hcompatible
      exact absurd hcompatible (not_compatible_of_stopped hdone hlower hi hlt)
  · cases hresult
  · rcases hsecond_cases with
      ⟨done', i', later', f', rest', hsplit', hi', hrest', rfl, rfl⟩ | ⟨f', rfl, -⟩ | ⟨_, rfl, rfl⟩
    · have hdone' := last_not_mem_of_split hnodup hsplit'
      have hlt := length_lt_of_split hsplit' hi'
      rw [through_concat, List.append_assoc] at hcompatible
      exact absurd hcompatible.symm (not_compatible_of_stopped hdone' hlower hi' hlt)
    · -- the disassembler cannot fail on what it has listed before
      rw [through_concat] at hfirst
      cases hfirst.disassembled hsecond haccepted.1
        (List.mem_append_left _ (List.mem_append_right _ List.mem_cons_self))
        (List.mem_append_right _ List.mem_cons_self)
    · obtain rfl := Except.ok.inj hresult
      exact ⟨⟨_, rfl, rfl⟩, by rw [calls_append, calls_append]; rfl⟩

end File

/-! ### Whole runs -/

section Runs

variable {plan : Plan} {lower : List Nat}
  (hpattern : ∀ pattern, SearchPattern.ofString plan.pattern = .ok pattern →
    ∀ part ∈ pattern.parts, part.Uses (· ≠ Path.up))
  (hnodup : (lower ++ [w.pipeline.disassembler]).Nodup)
include hpattern hnodup

namespace Relates

/-- Where an input is the same in both runs, the same files are taken through the stages. -/
theorem known (path : Path) (kind : InputKind) :
    w.Relates (w.Leads path kind)
      ((Remark .info).Then fun _ => (Files plan path kind).Then fun paths =>
        (Discovery paths).Then fun accepted => Course.Each Option.toList
          (Dispatch plan (lower ++ [w.pipeline.disassembler])) (accepted.map (⟨·, ⟨path, kind⟩⟩)))
      ((Remark .info).Then fun _ => (Files plan path kind).Then fun paths =>
        (Discovery paths).Then fun accepted => Course.Each Option.toList
          (Dispatch plan (lower ++ [w.pipeline.disassembler])) (accepted.map (⟨·, ⟨path, kind⟩⟩)))
      fun _ _ a b => b = a := by
  refine (remark (lasts_leads path kind) .info).andThen fun _ _ =>
    (files hpattern path kind).andThen fun paths paths' =>
      (discovery paths paths').andThen fun accepted accepted' => supposing ?_
  rintro rfl
  have hlasts : w.Lasts fun t₁ _ =>
      ∀ q ∈ accepted', w.Accepted q ∧ t₁.isFile w.here q = true := by
    intro t₁ t₁' t₂ t₂' h₁ _ hpre q hq
    exact ⟨(hpre q hq).1, h₁.isFile (hpre q hq).2⟩
  refine each hlasts fun c hc => ?_
  obtain ⟨q, hq, rfl⟩ := List.mem_map.mp hc
  exact (dispatch hnodup _).weaken fun t₁ _ hpre => hpre q hq

theorem input (path : Path) :
    w.Relates (fun _ _ => True) (Section plan (lower ++ [w.pipeline.disassembler]) path)
      (Section plan (lower ++ [w.pipeline.disassembler]) path) fun _ _ a b => b = a := by
  refine andThenFrom (fun kind? _ _ hnext => ?_) (probe path) fun kind? kind?' => ?_
  · cases kind? with
    | none =>
      obtain ⟨-, ⟨⟩⟩ := hnext
    | some kind => exact Option.some_ne_none kind
  · rintro events₁ events₂ t₁ t₁' t₂ t₂' a r ⟨kind, rfl, rfl, hleads⟩
    exact known hpattern hnodup path kind hleads

theorem sections (inputs : List Path) :
    w.Relates (fun _ _ => True) (Sections plan (lower ++ [w.pipeline.disassembler]) inputs)
      (Sections plan (lower ++ [w.pipeline.disassembler]) inputs) fun _ _ a b => b = a := by
  have hinputs : w.Relates (fun _ _ => True)
      (Course.Each id (Section plan (lower ++ [w.pipeline.disassembler])) inputs)
      (Course.Each id (Section plan (lower ++ [w.pipeline.disassembler])) inputs)
      fun _ _ a b => b = a :=
    each (fun _ _ _ _ _ _ _ => trivial) fun path _ => input hpattern hnodup path
  refine hinputs.andThen fun records records' => ?_
  have hlasts : w.Lasts fun _ _ => records' = records := fun _ _ _ _ _ _ hsame => hsame
  exact (remark hlasts .info).andThen fun _ _ => nothing fun _ _ hsame => hsame

end Relates

/-- **What a run did is done again.** A second run from the tree that a first one has left
    comes to the same result with the same calls, if all stages are prepared and those in
    front of the disassembler do not do differently. -/
theorem repeated {inputs : List Path} {events₁ events₂ : List Event} {records : List Record}
    {result : Except Failure (List Record)} {t₁ t₁' t₂ t₂' : Tree}
    (h₁ : Conforms plan (lower ++ [w.pipeline.disassembler]) inputs events₁ (.ok records))
    (h₂ : Conforms plan (lower ++ [w.pipeline.disassembler]) inputs events₂ result)
    (hfirst : w.First events₁ t₁ t₁') (hsecond : w.Second events₂ t₂ t₂')
    (hcompatible : Compatible w.pipeline.disassembler events₁ events₂)
    (hprepared : ∀ i f, .prepared i (.error f) ∉ events₂) :
    result = .ok records ∧ calls events₂ = calls events₁ := by
  generalize hresult : Except.ok records = result₁ at h₁
  cases h₁ with
  | unprepared => cases hresult
  | prepared hsections₁ =>
    subst hresult
    cases h₂ with
    | unprepared =>
      exact absurd (List.mem_append_right _ List.mem_cons_self) (hprepared _ _)
    | prepared hsections₂ =>
      obtain ⟨_, -, hfirst⟩ := hfirst.split
      obtain ⟨_, -, hsecond⟩ := hsecond.split
      obtain ⟨⟨_, hb, rfl⟩, hcalls⟩ := Relates.sections hpattern hnodup inputs trivial hsections₁
        hsections₂ hfirst hsecond (hcompatible.back rfl)
      exact ⟨hb, by rw [calls_append, calls_append, hcalls]⟩

end Runs

end Rerun

end ILDump.Pipeline
