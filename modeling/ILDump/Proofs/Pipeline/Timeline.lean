import ILDump.Proofs.Disassembler.Steps

/-!
# Timelines

A combined pipeline has the disassembler as its last stage; the stages before it write at
their destinations, or miss their tools. Its runs go through a line of trees, one before and
one after each event. Each event is answered by the tree before it, and from one tree to the
next directories and files stay what they are; contents change where a stage did its work,
and nowhere else.
-/

namespace ILDump.Pipeline

variable {ρ α : Type}

/-! ### Combined pipelines -/

/-- A file is written where a path leads to. -/
def WrittenAt (t t' : Tree) (here : Place) (destination : Path) (content : Bytes) : Prop :=
  ∃ there isExecutable, t.locate here destination = .ok there ∧
    t.node? there ≠ some .directory ∧ t' = t.put there (.file content isExecutable)

def LeavesFiles (work : Work (ρ × Workspace) α) : Prop :=
  ∀ st, (stateAfter (work st)).2.tree = st.2.tree ∧ (stateAfter (work st)).2.cwd = st.2.cwd

/-- The work of a stage that either comes back, having written anything or nothing at the
    destination, or misses its tool and has written nothing. It touches no other file. -/
def WritesOnlyThere (work : StageWork (ρ × Workspace)) : Prop :=
  ∀ source destination st,
    match work source destination st with
    | .ok _ st' => st'.2.cwd = st.2.cwd ∧ (st'.2.tree = st.2.tree ∨
        ∃ content, WrittenAt st.2.tree st'.2.tree st.2.cwd destination content)
    | .error f st' => (∃ d, f = .diagnosed .tool d) ∧ st'.2.tree = st.2.tree ∧
        st'.2.cwd = st.2.cwd

/-- Stages among which the disassembler has the highest rank and the others write at their
    destinations at most, with some way of checking files, of decoding them and of reporting.
    Beside the workspace the stages may have any state. -/
structure Combined (ρ : Type) where
  decoders : Decoders
  isAssembly : Path → Work (ρ × Workspace) Bool
  report : String → Work (ρ × Workspace) Unit
  stages : List (Stage (ρ × Workspace))
  disassembler : Nat
  order : MemberOrder
  checkLeaves : ∀ path, LeavesFiles (isAssembly path)
  reportLeaves : ∀ line, LeavesFiles (report line)
  disassembler_eq : stages[disassembler]? =
    some (Pipeline.disassemblerWith decoders order).onSecond
  lower : ∀ i stage, stages[i]? = some stage → i ≠ disassembler →
    stage.rank < Disassembler.stageRank
  prepareLeaves : ∀ i stage, stages[i]? = some stage → i ≠ disassembler →
    LeavesFiles stage.prepare
  writesThere : ∀ i stage, stages[i]? = some stage → i ≠ disassembler →
    ∀ st work t, stage.prepare st = .ok work t → WritesOnlyThere work

namespace Combined

def surroundings (c : Combined ρ) : Surroundings (ρ × Workspace) :=
  workspaceWith c.isAssembly c.report

def run (c : Combined ρ) (plan : Plan) (inputs : List Path) : Work (ρ × Workspace) (List Record) :=
  c.surroundings.run plan c.stages inputs

def trace (c : Combined ρ) (plan : Plan) (inputs : List Path) (start : ρ × Workspace) :
    List Event :=
  c.surroundings.trace plan c.stages inputs start

end Combined

/-- The listing of a file, as it is written. -/
def listing? (decoders : Decoders) (t : Tree) (here : Place) (order : MemberOrder)
    (source : Path) : Option Bytes :=
  match t.read here source with
  | .error _ => none
  | .ok content =>
    match ModuleImage.ofBytesWith decoders source.text content with
    | .error _ => none
    | .ok image => some (Utf8.encode (Listing.render order image))

/-! ### Steps -/

section Steps

variable (c : Combined ρ) (here : Place)

/-- What a call of the disassembler does. -/
structure Disassembles (t t' : Tree) (source destination : Path) (r : Except Failure Unit) :
    Prop where
  done : r = .ok () → ∃ content, listing? c.decoders t here c.order source = some content ∧
    WrittenAt t t' here destination content
  possible : ∀ content there, listing? c.decoders t here c.order source = some content →
    t.locate here destination = .ok there → t.node? there ≠ some .directory → r = .ok ()
  failed : ∀ f, r = .error f → t' = t ∧ ∀ d, f ≠ .diagnosed .tool d

/-- How the trees before and after an event answer it. -/
def Answers (t t' : Tree) : Event → Prop
  | .prepared _ _ => True
  | .probed path r => r = kindAt t here path
  | .searched root pattern r => r = foundBelow t here root pattern
  | .validated path r => ∃ st : ρ × Workspace, st.2.tree = t ∧ st.2.cwd = here ∧
      r = outcome (c.isAssembly path st)
  | .madeDirectories path r => (r = .ok () → t'.isDirectory here path = true) ∧
      (t.isDirectory here path = true → r = .ok ())
  | .called i source destination r =>
    if i = c.disassembler then Disassembles c here t t' source destination r
    else ∀ f, r = .error f → ∃ d, f = .diagnosed .tool d
  | .reported line r => ∃ st, r = outcome (c.report line st)
  | .logged _ _ r => r = .ok ()

/-- The place where a stage did its work. -/
def Event.writtenPlace? : Event → Option Place
  | .called _ _ destination (.ok _) => some (destination.place here)
  | _ => none

/-- An event between two trees. -/
structure Moment (t : Tree) (e : Event) (t' : Tree) : Prop where
  proper : t.Proper
  proper' : t'.Proper
  standing : t.node? here = some .directory
  grows : t.Grows (fun p => e.writtenPlace? here = some p) t'
  answers : Answers c here t t' e

/-- A list of events between two trees. -/
def Timeline : List Event → Tree → Tree → Prop
  | [], t, t' => t' = t
  | e :: events, t, t' => ∃ between, Moment c here t e between ∧ Timeline events between t'

end Steps

namespace Timeline

variable {c : Combined ρ} {here : Place} {events : List Event} {t t' t'' : Tree}

theorem append_iff : ∀ {events events' : List Event} {t t'' : Tree},
    Timeline c here (events ++ events') t t'' ↔
      ∃ t', Timeline c here events t t' ∧ Timeline c here events' t' t''
  | [], _, t, t'' => by
    simp [Timeline]
  | e :: events, events', t, t'' => by
    rw [List.cons_append, Timeline]
    constructor
    · rintro ⟨between, hmoment, hrest⟩
      obtain ⟨t', hevents, hevents'⟩ := append_iff.mp hrest
      exact ⟨t', ⟨between, hmoment, hevents⟩, hevents'⟩
    · rintro ⟨t', ⟨between, hmoment, hevents⟩, hevents'⟩
      exact ⟨between, hmoment, append_iff.mpr ⟨t', hevents, hevents'⟩⟩

theorem concat {e : Event} (h : Timeline c here events t t') (hm : Moment c here t' e t'') :
    Timeline c here (events ++ [e]) t t'' :=
  append_iff.mpr ⟨t', h, t'', hm, rfl⟩

/-- Contents change at most where a stage did its work. -/
theorem grows {changed : Place → Prop} : ∀ {events : List Event} {t t' : Tree},
    Timeline c here events t t' →
    (∀ e ∈ events, ∀ p, e.writtenPlace? here = some p → changed p) → t.Grows changed t'
  | [], t, t', h, _ => by
    rw [show t' = t from h]
    exact .refl t
  | e :: events, t, t', ⟨between, hmoment, hrest⟩, hchanged => by
    have hone : t.Grows changed between :=
      hmoment.grows.mono fun p hp => hchanged e (by simp) p hp
    exact hone.trans (grows hrest fun e he => hchanged e (by simp [he]))

end Timeline

/-! ### What writing does -/

theorem WrittenAt.step {t t' : Tree} {here : Place} {destination : Path} {content : Bytes}
    (h : WrittenAt t t' here destination content) (hproper : t.Proper)
    (hhere : t.node? here = some .directory) :
    t'.Proper ∧ t.Grows (· = destination.place here) t' ∧
      ∃ x, t'.lookup? here destination = some (.file content x) := by
  obtain ⟨there, x, hlocate, hnode, rfl⟩ := h
  have hroom := hproper.hasRoom hhere hlocate hnode
  have hplace := Tree.locate_eq_place (hproper.up_not_mem hhere) hlocate
  have hgrows := Tree.Grows.put_file hroom.nonempty hnode content x
  refine ⟨hproper.put hroom fun hdirectory => absurd hdirectory hnode, hplace ▸ hgrows, x, ?_⟩
  refine Tree.lookup?_eq_some_iff.mpr ⟨there, hgrows.walk hlocate, ?_⟩
  rw [Tree.node?_put hroom.nonempty, if_pos rfl]

theorem load_cases (decoders : Decoders) (order : MemberOrder) (source : Path) (w : Workspace) :
    (∃ image, Disassembler.loadWith decoders source w = .ok image w ∧
      listing? decoders w.tree w.cwd order source =
        some (Utf8.encode (Listing.render order image))) ∨
    ∃ f, (∀ d, f ≠ .diagnosed .tool d) ∧ Disassembler.loadWith decoders source w = .error f w ∧
      listing? decoders w.tree w.cwd order source = none := by
  rw [Disassembler.loadWith_eq, Workspace.read]
  unfold listing?
  cases hread : w.tree.read w.cwd source with
  | error e =>
    right
    cases e <;> exact ⟨_, by simp, rfl, rfl⟩
  | ok content =>
    cases himage : ModuleImage.ofBytesWith decoders source.text content with
    | error f =>
      exact .inr ⟨Disassembler.loadFailure source.text f, Disassembler.loadFailure_ne_tool f,
        by simp [himage], by simp [himage]⟩
    | ok image => exact .inl ⟨image, by simp [himage], by simp [himage]⟩

theorem disassemble_cases (decoders : Decoders) (order : MemberOrder) (source destination : Path)
    (w : Workspace) :
    (∃ content tree, listing? decoders w.tree w.cwd order source = some content ∧
      w.tree.write w.cwd destination content = .ok tree ∧
      Disassembler.disassembleWith decoders order source destination w = .ok () { w with tree }) ∨
    ∃ f, (∀ d, f ≠ .diagnosed .tool d) ∧
      Disassembler.disassembleWith decoders order source destination w = .error f w ∧
      ∀ content, listing? decoders w.tree w.cwd order source = some content →
        ∃ e, w.tree.write w.cwd destination content = .error e := by
  rcases load_cases decoders order source w with ⟨image, hload, hlisting⟩ | ⟨f, hf, hload, hlisting⟩
  · have hwork := Disassembler.disassembleWith_of_load_ok order destination hload
    cases hres : w.tree.write w.cwd destination (Utf8.encode (Listing.render order image)) with
    | ok tree =>
      rw [hres] at hwork
      exact .inl ⟨_, tree, hlisting, hres, hwork⟩
    | error e =>
      rw [hres] at hwork
      refine .inr ⟨_, by simp, hwork, fun content hcontent => ⟨e, ?_⟩⟩
      rw [hlisting] at hcontent
      rw [← Option.some.inj hcontent]
      exact hres
  · exact .inr ⟨f, hf, Disassembler.disassembleWith_of_load_error order destination hload,
      by simp [hlisting]⟩

/-- Where a path leads to no directory, a file can be written. -/
theorem exists_write_eq_ok {t : Tree} {here there : Place} {destination : Path}
    (hlocate : t.locate here destination = .ok there) (hnode : t.node? there ≠ some .directory)
    (content : Bytes) : ∃ t', t.write here destination content = .ok t' := by
  simp only [Tree.write, hlocate, bind, Except.bind]
  cases hn : t.node? there with
  | none => exact ⟨_, rfl⟩
  | some n =>
    cases n with
    | file c x => exact ⟨_, rfl⟩
    | directory => exact absurd hn hnode

/-- What the disassembler of a pipeline does with a file. -/
def Combined.disassemble (c : Combined ρ) (source destination : Path) :
    Work (ρ × Workspace) Unit :=
  (Disassembler.disassembleWith c.decoders c.order source destination).onSecond

theorem disassembles (c : Combined ρ) (source destination : Path) (st : ρ × Workspace) :
    Disassembles c st.2.cwd st.2.tree (stateAfter (c.disassemble source destination st)).2.tree
        source destination (outcome (c.disassemble source destination st)) ∧
      (stateAfter (c.disassemble source destination st)).2.cwd = st.2.cwd := by
  unfold Combined.disassemble Work.onSecond
  rcases disassemble_cases c.decoders c.order source destination st.2 with
    ⟨content, tree, hlisting, hwrite, hres⟩ | ⟨f, hf, hres, hunwritable⟩
  · rw [hres]
    refine ⟨⟨fun _ => ⟨content, hlisting, ?_⟩, fun _ _ _ _ _ => rfl, by simp [outcome]⟩, rfl⟩
    exact Tree.write_eq_ok hwrite
  · rw [hres]
    refine ⟨⟨?_, fun content there hlisting hlocate hnode => ?_, ?_⟩, rfl⟩
    · intro h
      cases h
    · obtain ⟨e, he⟩ := hunwritable content hlisting
      obtain ⟨t', ht'⟩ := exists_write_eq_ok hlocate hnode content
      rw [ht'] at he
      cases he
    · intro f' h
      exact ⟨rfl, Except.error.inj h ▸ hf⟩

/-! ### Runs make timelines -/

/-- What has happened since a tree is a timeline to the tree of a state. -/
structure Standing (c : Combined ρ) (here : Place) (lo : Tree) (past : List Event)
    (st : ρ × Workspace) : Prop where
  cwd : st.2.cwd = here
  proper : st.2.tree.Proper
  standing : st.2.tree.node? here = some .directory
  timeline : Timeline c here past lo st.2.tree

namespace Standing

variable {c : Combined ρ} {here : Place} {lo : Tree} {past : List Event} {st st' : ρ × Workspace}
  {e : Event} (h : Standing c here lo past st)
include h

theorem next (hcwd : st'.2.cwd = st.2.cwd) (hproper : st'.2.tree.Proper)
    (hgrows : st.2.tree.Grows (fun p => e.writtenPlace? here = some p) st'.2.tree)
    (hanswers : Answers c here st.2.tree st'.2.tree e) :
    Standing c here lo (past ++ [e]) st' :=
  ⟨hcwd.trans h.cwd, hproper, hgrows.directories _ h.standing,
    h.timeline.concat ⟨h.proper, hproper, h.standing, hgrows, hanswers⟩⟩

theorem stay (hstay : st'.2.tree = st.2.tree ∧ st'.2.cwd = st.2.cwd)
    (hanswers : Answers c here st.2.tree st.2.tree e) : Standing c here lo (past ++ [e]) st' := by
  obtain ⟨htree, hcwd⟩ := hstay
  refine h.next hcwd (htree ▸ h.proper) ?_ ?_ <;> rw [htree]
  · exact .refl _
  · exact hanswers

theorem makeDirectories (path : Path) :
    Standing c here lo
      (past ++ [.madeDirectories path (outcome (c.surroundings.makeDirectories path st))])
      (stateAfter (c.surroundings.makeDirectories path st)) := by
  obtain ⟨hextended, hdone⟩ := withDirectoriesAt_extended h.cwd h.proper h.standing path
  rw [Combined.surroundings, stateAfter_makeDirectories, makeDirectories_eq]
  refine h.next rfl hextended.proper (hextended.grows.mono fun _ => False.elim) ⟨fun hr => ?_, ?_⟩
  · cases hmade : (withDirectoriesAt st path).2 with
    | none => exact hdone hmade
    | some e =>
      rw [hmade] at hr
      cases hr
  · intro hdirectory
    rw [withDirectoriesAt, h.cwd, Tree.makeDirectories_of_isDirectory hdirectory]
    rfl

theorem callLower {i : Nat} (hi : i ≠ c.disassembler) {work : StageWork (ρ × Workspace)}
    (hwork : WritesOnlyThere work) (source destination : Path) :
    Standing c here lo
      (past ++ [.called i source destination (outcome (work source destination st))])
      (stateAfter (work source destination st)) := by
  have hdoes := hwork source destination st
  cases hres : work source destination st with
  | ok u st' =>
    rw [hres] at hdoes
    obtain ⟨hcwd, htree | ⟨content, hwritten⟩⟩ := hdoes
    · refine h.stay ⟨htree, hcwd⟩ ?_
      simp [Answers, hi, outcome]
    · rw [h.cwd] at hwritten
      obtain ⟨hproper, hgrows, -⟩ := hwritten.step h.proper h.standing
      refine h.next hcwd hproper (hgrows.mono fun p hp => ?_) ?_
      · rw [hp]
        rfl
      · simp [Answers, hi, outcome]
  | error f st' =>
    rw [hres] at hdoes
    obtain ⟨hf, hstay⟩ := hdoes
    refine h.stay hstay ?_
    simpa [Answers, hi, outcome] using hf

theorem callDisassembler (source destination : Path) :
    Standing c here lo
      (past ++ [.called c.disassembler source destination
        (outcome (c.disassemble source destination st))])
      (stateAfter (c.disassemble source destination st)) := by
  obtain ⟨hdoes, hcwd⟩ := disassembles c source destination st
  rw [h.cwd] at hdoes
  generalize hwork : c.disassemble source destination st = result at *
  cases result with
  | ok u st' =>
    obtain ⟨content, -, hwritten⟩ := hdoes.done rfl
    obtain ⟨hproper, hgrows, -⟩ := hwritten.step h.proper h.standing
    refine h.next hcwd hproper (hgrows.mono fun p hp => ?_) ?_
    · rw [hp]
      rfl
    · simpa [Answers] using hdoes
  | error f st' =>
    obtain ⟨htree, -⟩ := hdoes.failed f rfl
    rw [htree] at hdoes
    refine h.stay ⟨htree, hcwd⟩ ?_
    simpa [Answers] using hdoes

end Standing

/-- What every call of a run on a workspace keeps. -/
theorem Combined.standing_invariant (c : Combined ρ) (here : Place) (lo : Tree) :
    Invariant c.surroundings c.stages (Standing c here lo) where
  probe path past st h := by
    rw [surroundings, probe_eq, outcome_leaving, stateAfter_leaving, h.cwd]
    exact h.stay ⟨rfl, rfl⟩ rfl
  search root pattern past st h := by
    rw [surroundings, search_eq, outcome_leaving, stateAfter_leaving, h.cwd]
    exact h.stay ⟨rfl, rfl⟩ rfl
  isAssembly path past st h := h.stay (c.checkLeaves path st) ⟨st, rfl, h.cwd, rfl⟩
  makeDirectories path past st h := h.makeDirectories path
  log level text past st h := h.stay ⟨rfl, rfl⟩ rfl
  report line past st h := h.stay (c.reportLeaves line st) ⟨st, rfl⟩
  prepare i stage hi past st h := by
    by_cases hlast : i = c.disassembler
    · rw [hlast, c.disassembler_eq] at hi
      rw [← Option.some.inj hi]
      exact h.stay ⟨rfl, rfl⟩ trivial
    · exact h.stay (c.prepareLeaves i stage hi hlast st) trivial
  call i stage hi past st work t h hwork source destination past' st' h' := by
    by_cases hlast : i = c.disassembler
    · rw [hlast, c.disassembler_eq] at hi
      rw [← Option.some.inj hi] at hwork
      cases hwork
      rw [hlast]
      exact h'.callDisassembler source destination
    · exact h'.callLower hlast (c.writesThere i stage hi hlast st work t hwork) source destination

/-- **A run makes a timeline**, however it ends. -/
theorem Combined.standing_run (c : Combined ρ) (plan : Plan) (inputs : List Path)
    {start : ρ × Workspace} (hproper : start.2.tree.Proper)
    (hstanding : start.2.tree.node? start.2.cwd = some .directory) :
    Standing c start.2.cwd start.2.tree (c.trace plan inputs start)
      (stateAfter (c.run plan inputs start)) :=
  (c.standing_invariant start.2.cwd start.2.tree).run plan inputs ⟨rfl, hproper, hstanding, rfl⟩

end ILDump.Pipeline
