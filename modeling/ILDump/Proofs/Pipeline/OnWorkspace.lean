import ILDump.Pipeline.Local
import ILDump.Proofs.Pipeline.Invariants
import ILDump.Proofs.Workspace.Questions
import ILDump.Proofs.Workspace.Searches

/-!
# Runs on a workspace

What the calls of a run find in a workspace and leave of it. How files are checked and how
reports are made may be anything else, and so may the state of the stages beside the
workspace.
-/

namespace ILDump

/-- A workspace whose tree is a proper one, seen from a directory in it. -/
structure Workspace.Sound (cwd : Place) (w : Workspace) : Prop where
  cwd_eq : w.cwd = cwd
  proper : w.tree.Proper
  named : w.tree.Named IsComponent
  here : w.tree.node? cwd = some .directory

/-- What writing a file does to a tree. -/
theorem Tree.write_eq_ok {t t' : Tree} {cwd : Place} {p : Path} {content : Bytes}
    (h : t.write cwd p content = .ok t') :
    ∃ there isExecutable, t.locate cwd p = .ok there ∧ t.node? there ≠ some .directory ∧
      t' = t.put there (.file content isExecutable) := by
  unfold write at h
  cases hlocate : t.locate cwd p with
  | error e =>
    rw [hlocate] at h
    cases h
  | ok there =>
    rw [hlocate] at h
    simp only [bind, Except.bind] at h
    split at h
    · rename_i hnode
      exact ⟨there, _, rfl, by simp [hnode], (Except.ok.inj h).symm⟩
    · cases h
    · rename_i hnode
      exact ⟨there, _, rfl, by simp [hnode], (Except.ok.inj h).symm⟩

theorem Workspace.Sound.write {cwd : Place} {w : Workspace} (hw : w.Sound cwd) {p : Path}
    (hp : p.WellFormed) {content : Bytes} {t : Tree} (h : w.tree.write w.cwd p content = .ok t) :
    ({ w with tree := t } : Workspace).Sound cwd := by
  obtain ⟨rfl, hproper, hnamed, hhere⟩ := hw
  obtain ⟨there, x, hlocate, hnode, rfl⟩ := Tree.write_eq_ok h
  have hroom := hproper.hasRoom hhere hlocate hnode
  have hnames : ∀ s ∈ there, IsComponent s := by
    refine Tree.Named.of_walk ?_ hp hlocate
    split
    · simp
    · exact hnamed.of_node? hhere
  exact ⟨rfl, hproper.put hroom fun hdirectory => absurd hdirectory hnode, hnamed.put hnames,
    (Tree.Grows.put_file hroom.nonempty hnode content x).directories _ hhere⟩

namespace Pipeline

variable {ρ : Type}

/-- A workspace as the surroundings of a run that checks files and reports in its own ways. -/
def workspaceWith (isAssembly : Path → Work (ρ × Workspace) Bool)
    (report : String → Work (ρ × Workspace) Unit) : Surroundings (ρ × Workspace) :=
  { workspace.onSecond with isAssembly := isAssembly, report := report }

/-! ### What single calls do -/

variable {isAssembly : Path → Work (ρ × Workspace) Bool}
  {report : String → Work (ρ × Workspace) Unit}

/-- Whether there is a file or a directory at a path. -/
def leadsTo (t : Tree) (cwd : Place) (path : Path) : InputKind → Bool
  | .file => t.isFile cwd path
  | .directory => t.isDirectory cwd path

theorem kindAt_eq_some_iff {t : Tree} {cwd : Place} {path : Path} {kind : InputKind} :
    kindAt t cwd path = .ok (some kind) ↔ leadsTo t cwd path kind = true := by
  unfold kindAt leadsTo Tree.isFile Tree.isDirectory
  cases hlookup : t.lookup? cwd path with
  | none =>
    cases t.refusal? cwd path <;> cases kind <;> simp
  | some n =>
    rw [Tree.refusal?_of_lookup? hlookup]
    cases n <;> cases kind <;> simp

theorem leadsTo_of_grows {changed : Place → Prop} {t t' : Tree} (h : t.Grows changed t')
    {cwd : Place} {path : Path} {kind : InputKind} (hleads : leadsTo t cwd path kind = true) :
    leadsTo t' cwd path kind = true := by
  cases kind with
  | file => exact h.isFile hleads
  | directory => exact h.isDirectory hleads

@[simp] theorem outcome_leaving {σ α : Type} (x : Except Failure α) (s : σ) :
    outcome (leaving x s) = x := by
  cases x <;> rfl

@[simp] theorem stateAfter_leaving {σ α : Type} (x : Except Failure α) (s : σ) :
    stateAfter (leaving x s) = s := by
  cases x <;> rfl

theorem probe_leaves (path : Path) (w : Workspace) :
    probe path w = leaving (kindAt w.tree w.cwd path) w :=
  Session.ask_eq _ w

theorem search_leaves (root : Path) (pattern : String) (w : Workspace) :
    search root pattern w = leaving (foundBelow w.tree w.cwd root pattern) w :=
  Session.ask_eq _ w

theorem probe_eq (path : Path) (st : ρ × Workspace) :
    (workspaceWith isAssembly report).probe path st =
      leaving (kindAt st.2.tree st.2.cwd path) st :=
  Work.onSecond_of_leaving (probe_leaves path st.2)

theorem foundBelow_eq_ok {t : Tree} {cwd : Place} {root : Path} {pattern : String}
    {found : List Path} (h : foundBelow t cwd root pattern = .ok found) :
    ∃ pattern', SearchPattern.ofString pattern = .ok pattern' ∧
      found = t.filesBelow cwd root pattern' := by
  unfold foundBelow at h
  cases hpattern : SearchPattern.ofString pattern with
  | error fault => simp [hpattern] at h
  | ok pattern' =>
    rw [hpattern] at h
    exact ⟨pattern', rfl, (Except.ok.inj h).symm⟩

theorem search_eq (root : Path) (pattern : String) (st : ρ × Workspace) :
    (workspaceWith isAssembly report).search root pattern st =
      leaving (foundBelow st.2.tree st.2.cwd root pattern) st :=
  Work.onSecond_of_leaving (search_leaves root pattern st.2)

/-- The tree once directories were created, and what went wrong. -/
def withDirectoriesAt (st : ρ × Workspace) (path : Path) : Tree × Option DiskError :=
  Tree.makeDirectories st.2.cwd path.parts.length path st.2.tree

theorem sessionMakeDirectories_eq (path : Path) (st : ρ × Workspace) :
    Session.makeDirectories path st.2 =
      (do
        set { st.2 with tree := (withDirectoriesAt st path).1 }
        match (withDirectoriesAt st path).2 with
        | some e => throw (.disk e path.text)
        | none => return : Session Unit) st.2 :=
  rfl

theorem makeDirectories_eq (path : Path) (st : ρ × Workspace) :
    (workspaceWith isAssembly report).makeDirectories path st =
      match (withDirectoriesAt st path).2 with
      | none => .ok () (st.1, { st.2 with tree := (withDirectoriesAt st path).1 })
      | some e =>
        .error (.disk e path.text) (st.1, { st.2 with tree := (withDirectoriesAt st path).1 }) := by
  have hsecond : (workspaceWith isAssembly report).makeDirectories path st =
      (Session.makeDirectories path).onSecond st := rfl
  rw [hsecond, Work.onSecond, sessionMakeDirectories_eq]
  cases (withDirectoriesAt st path).2 <;> rfl

theorem stateAfter_makeDirectories (path : Path) (st : ρ × Workspace) :
    stateAfter ((workspaceWith isAssembly report).makeDirectories path st) =
      (st.1, { st.2 with tree := (withDirectoriesAt st path).1 }) := by
  rw [makeDirectories_eq]
  split <;> rfl

theorem withDirectoriesAt_extended {cwd : Place} {st : ρ × Workspace} (hcwd : st.2.cwd = cwd)
    (hproper : st.2.tree.Proper) (hhere : st.2.tree.node? cwd = some .directory) (path : Path) :
    Tree.Extended cwd st.2.tree (withDirectoriesAt st path).1 ∧
      ((withDirectoriesAt st path).2 = none →
        (withDirectoriesAt st path).1.isDirectory cwd path = true) := by
  subst hcwd
  exact Tree.makeDirectories_extended hproper hhere

theorem write_eq (p : Path) (content : Bytes) (w : Workspace) :
    Session.write p content w =
      match w.tree.write w.cwd p content with
      | .ok tree => .ok none { w with tree }
      | .error e => .ok (some e) w := by
  have hwork : Session.write p content w =
      (match w.tree.write w.cwd p content with
        | .ok tree => do
          set { w with tree }
          return none
        | .error e => return some e : Session (Option DiskError)) w := rfl
  rw [hwork]
  cases w.tree.write w.cwd p content <;> rfl

/-! ### Work on a sound workspace -/

namespace Ensures

variable {α : Type} {here : Place}

theorem onSecond {I : Workspace → Prop} {good : α → Prop} {work : Session α}
    (h : Ensures I good work) :
    Ensures (fun st : ρ × Workspace => I st.2) good work.onSecond := by
  intro st hst
  obtain ⟨hafter, hgood⟩ := h st.2 hst
  unfold Work.onSecond
  cases hres : work st.2 <;> simp_all [stateAfter, outcome]

/-- The work of a stage whose state is the second half of a pair. -/
theorem onSecond_prepare {I : Workspace → Prop} {good : StageWork Workspace → Prop}
    {stage : Stage Workspace} (h : Ensures I good stage.prepare) :
    Ensures (fun st : ρ × Workspace => I st.2)
      (fun work => ∃ inner, good inner ∧
        work = fun source destination => (inner source destination).onSecond)
      stage.onSecond.prepare := by
  have hinner : Ensures I (fun work : StageWork (ρ × Workspace) => ∃ inner, good inner ∧
      work = fun source destination => (inner source destination).onSecond)
      (do
        let work ← stage.prepare
        return fun source destination => (work source destination).onSecond) :=
    h.bind fun work hwork => .pure ⟨work, hwork, rfl⟩
  exact hinner.onSecond

theorem read (p : Path) : Keeps (Workspace.Sound here) (Session.read p) :=
  of_keeps fun _ hw => hw

theorem write {p : Path} (hp : p.WellFormed) (content : Bytes) :
    Keeps (Workspace.Sound here) (Session.write p content) := by
  refine of_keeps fun w hw => ?_
  rw [write_eq]
  split
  · rename_i hwrite
    exact hw.write hp hwrite
  · exact hw

end Ensures

end Pipeline

end ILDump
