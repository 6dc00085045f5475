import ILDump.Tool.Local
import ILDump.Proofs.Tool.Turns

/-!
# The tool in a file tree

In a workspace all questions about the tool are answered by the tree, the working directory
and the environment, and asking changes nothing but the log. So the place of the tool is a
function of these. What a started program does to the tree is up to the program.
-/

namespace ILDump.Tool

/-- Where the tool is found as things are: at the configured place and nowhere else, or in the
    working directory, or else along the search path. It fails where it cannot be told. -/
def place (w : Workspace) : Option Path → Except Failure (Option Path)
  | some p => do return if ← w.hasFile p then some p else none
  | none => do
    let here := (← w.standing).child programName
    if ← w.hasFile here then return some here
    else return (searchedNames.findSome? (Launch.findOnSearchPath w)).map Path.ofString

theorem place_congr {w w' : Workspace} (htree : w.tree = w'.tree) (hcwd : w.cwd = w'.cwd)
    (henvironment : w.environment = w'.environment) (configured? : Option Path) :
    place w configured? = place w' configured? := by
  obtain ⟨tree, cwd, environment, _, _, _, _⟩ := w
  obtain ⟨tree', cwd', environment', _, _, _, _⟩ := w'
  subst htree hcwd henvironment
  cases configured? <;> rfl

/-- It cannot be told where the tool is if the disk refuses to say, or if the working directory is
    gone. -/
theorem place_error {w : Workspace} {configured? : Option Path} {f : Failure}
    (h : place w configured? = .error f) : (∃ e p, f = .disk e p) ∨ ∃ e, f = .astray e := by
  have hfile {p : Path} {f : Failure} (h : w.hasFile p = .error f) : ∃ e p, f = .disk e p := by
    cases hrefusal : w.tree.refusal? w.cwd p with
    | some e =>
      rw [Workspace.hasFile_of_refused hrefusal] at h
      exact ⟨e, _, (Except.error.inj h).symm⟩
    | none =>
      rw [Workspace.hasFile_of_unrefused hrefusal] at h
      cases h
  cases configured? with
  | some p =>
    rcases hseen : w.hasFile p with f' | _ | _
    · obtain rfl : f' = f := by simpa [place, hseen, Bind.bind, Except.bind] using h
      exact .inl (hfile hseen)
    all_goals simp [place, hseen, Bind.bind, Except.bind, pure, Except.pure] at h
  | none =>
    by_cases hstanding : w.tree.node? w.cwd = some .directory
    · rw [place, Workspace.standing_of_directory hstanding] at h
      rcases hseen : w.hasFile (w.cwdPath.child programName) with f' | _ | _
      · obtain rfl : f' = f := by simpa [hseen, Bind.bind, Except.bind] using h
        exact .inl (hfile hseen)
      all_goals simp [hseen, Bind.bind, Except.bind, pure, Except.pure] at h
    · rw [place, Workspace.standing_of_gone hstanding] at h
      exact .inr ⟨_, (Except.error.inj h).symm⟩

section

variable (launch : Launcher) (configured? : Option Path) (limit? : Option Int) (w : Workspace)

theorem isFile_workspaceWith (tool : Tool) (p : Path) :
    ((workspaceWith launch).isFile p).onSecond (tool, w) = leaving (w.hasFile p) (tool, w) :=
  Work.onSecond_of_leaving (Session.ask_eq (fun w => w.hasFile p) w)

theorem cwd_workspaceWith {x : Except Failure Path} (h : w.standing = x) (tool : Tool) :
    (workspaceWith launch).cwd.onSecond (tool, w) = leaving x (tool, w) := by
  rw [← h]
  exact Work.onSecond_of_leaving (Session.ask_eq _ w)

theorem findAlong_eq (names : List String) :
    ∃ log, findAlong (workspaceWith launch) names (⟨configured?, limit?, none⟩, w) =
      .ok ((names.findSome? (Launch.findOnSearchPath w)).map Path.ofString)
        (⟨configured?, limit?, (names.findSome? (Launch.findOnSearchPath w)).map Path.ofString⟩,
          { w with log }) := by
  induction names with
  | nil => exact ⟨w.log, rfl⟩
  | cons name names ih =>
    have hsearch : ((workspaceWith launch).findOnSearchPath name).onSecond
        ((⟨configured?, limit?, none⟩ : Tool), w) =
        .ok (Launch.findOnSearchPath w name) (⟨configured?, limit?, none⟩, w) := rfl
    unfold findAlong
    rw [bind_eq_of_ok hsearch, List.findSome?_cons]
    cases Launch.findOnSearchPath w name with
    | some found => exact ⟨_, rfl⟩
    | none => exact ih

theorem find_eq :
    ∃ log, find (workspaceWith launch) (⟨configured?, limit?, none⟩, w) =
      leaving (place w configured?)
        (⟨configured?, limit?, placeFound? (place w configured?)⟩, { w with log }) := by
  unfold find candidate place
  rw [get_bind]
  cases configured? with
  | some p =>
    simp only [pure_bind]
    rw [bind_eq_of_leaving (isFile_workspaceWith launch w _ p)]
    rcases w.hasFile p with f | _ | _ <;> exact ⟨_, rfl⟩
  | none =>
    simp only [bind_assoc, pure_bind]
    rcases hstanding : w.standing with f | cwd
    · rw [bind_eq_of_leaving (cwd_workspaceWith launch w hstanding _)]
      exact ⟨_, rfl⟩
    · rw [bind_eq_of_leaving (cwd_workspaceWith launch w hstanding _)]
      dsimp only
      rw [bind_eq_of_leaving (isFile_workspaceWith launch w _ _)]
      rcases hfile : w.hasFile (cwd.child programName) with f | _ | _
      · exact ⟨_, by simp only [Bind.bind, Except.bind, hfile]; rfl⟩
      · obtain ⟨log, hfound⟩ := findAlong_eq launch none limit? w searchedNames
        simp only [Bool.false_eq_true, if_false]
        rw [bind_eq_of_ok hfound]
        cases hplace : (searchedNames.findSome? (Launch.findOnSearchPath w)).map Path.ofString with
        | some p => exact ⟨log, by simp only [Bind.bind, Except.bind, hfile]; rfl⟩
        | none =>
          -- where it was looked for is told by the working directory, which is still there
          have hagain := cwd_workspaceWith launch { w with log } hstanding ⟨none, limit?, none⟩
          dsimp only
          rw [bind_eq_of_leaving hagain]
          exact ⟨_, by simp only [Bind.bind, Except.bind, hfile]; rfl⟩
      · exact ⟨_, by simp only [Bind.bind, Except.bind, hfile]; rfl⟩

/-! ### The stage of the tool -/

/-- What a tool at some place is started with. -/
def commandAt (p source destination : Path) : List String :=
  [p.text, source.text, "/all", "/out=" ++ destination.text]

/-- What the stage does with a file once the place of the tool is known. -/
def workAt (tool : Tool) (p : Path) : StageWork Workspace := fun source destination => do
  let _ ← Work.withFirst { tool with resolved? := some p }
    (disassemble (workspaceWith launch) source destination)

variable {launch configured? limit? w} {p : Path}

theorem stage_prepare_of_place (hplace : place w configured? = .ok (some p)) :
    ∃ log, (stage (workspaceWith launch) ⟨configured?, limit?, none⟩).prepare w =
      .ok (workAt launch ⟨configured?, limit?, none⟩ p) { w with log } := by
  obtain ⟨log, hfind⟩ := find_eq launch configured? limit? w
  rw [hplace] at hfind
  have hprepare : prepare (workspaceWith launch) (⟨configured?, limit?, none⟩, w) =
      .ok () (⟨configured?, limit?, some p⟩, { w with log }) := bind_eq_of_ok hfind
  have hwork : Work.withFirst ⟨configured?, limit?, none⟩ (prepare (workspaceWith launch)) w =
      .ok ((), ⟨configured?, limit?, some p⟩) { w with log } := by
    rw [Work.withFirst, hprepare]
  exact ⟨log, bind_eq_of_ok hwork⟩

theorem stage_prepare_of_error {f : Failure} {tool : Tool} {log : Array LogRecord}
    (hprepare : prepare (workspaceWith launch) (⟨configured?, limit?, none⟩, w) =
      .error f (tool, { w with log })) :
    (stage (workspaceWith launch) ⟨configured?, limit?, none⟩).prepare w =
      .error f { w with log } := by
  refine bind_eq_of_error ?_
  rw [Work.withFirst, hprepare]

theorem stage_prepare_of_nowhere (hplace : place w configured? = .ok none) :
    ∃ searched log, (stage (workspaceWith launch) ⟨configured?, limit?, none⟩).prepare w =
      .error (missing searched) { w with log } := by
  obtain ⟨log, hfind⟩ := find_eq launch configured? limit? w
  rw [hplace] at hfind
  suffices hprepare : ∃ searched,
      prepare (workspaceWith launch) (⟨configured?, limit?, none⟩, w) =
        .error (missing searched) (⟨configured?, limit?, none⟩, { w with log }) by
    obtain ⟨searched, hprepare⟩ := hprepare
    exact ⟨searched, log, stage_prepare_of_error hprepare⟩
  unfold prepare
  rw [bind_eq_of_leaving hfind]
  cases configured? with
  | some here => exact ⟨_, rfl⟩
  | none =>
    obtain ⟨cwd, hstanding⟩ : ∃ cwd, w.standing = .ok cwd := by
      cases hstanding : w.standing with
      | ok cwd => exact ⟨cwd, rfl⟩
      | error f =>
        rw [place, hstanding] at hplace
        cases hplace
    have hagain := cwd_workspaceWith launch { w with log } hstanding ⟨none, limit?, none⟩
    dsimp only
    rw [get_bind]
    unfold candidate
    simp only [bind_assoc, pure_bind, placeFound?_ok]
    rw [bind_eq_of_leaving hagain]
    exact ⟨_, rfl⟩

theorem stage_prepare_of_trouble {f : Failure} (hplace : place w configured? = .error f) :
    ∃ log, (stage (workspaceWith launch) ⟨configured?, limit?, none⟩).prepare w =
      .error f { w with log } := by
  obtain ⟨log, hfind⟩ := find_eq launch configured? limit? w
  rw [hplace] at hfind
  exact ⟨log, stage_prepare_of_error (bind_eq_of_error hfind)⟩

variable (source destination : Path)

theorem workAt_of_disassemble {x : Except Failure Unit} {tool : Tool} {w' : Workspace}
    (h : disassemble (workspaceWith launch) source destination (⟨configured?, limit?, some p⟩, w) =
      leaving x (tool, w')) :
    workAt launch ⟨configured?, limit?, none⟩ p source destination w = leaving x w' := by
  cases x with
  | ok u =>
    have hsecond : Work.withFirst ⟨configured?, limit?, some p⟩
        (disassemble (workspaceWith launch) source destination) w = .ok ((), tool) w' := by
      rw [Work.withFirst, h]
      rfl
    exact bind_eq_of_ok hsecond
  | error f =>
    refine bind_eq_of_error ?_
    rw [Work.withFirst, h]
    rfl

/-- A tool that cannot be seen is not started. -/
theorem workAt_of_unseen {f : Failure} (hfile : w.hasFile p = .error f) :
    workAt launch ⟨configured?, limit?, none⟩ p source destination w = .error f w := by
  have hwork := disassemble_of_resolved source destination
    (isFile_workspaceWith launch w ⟨configured?, limit?, some p⟩ p)
  rw [hfile] at hwork
  exact workAt_of_disassemble source destination (x := .error f) hwork

/-- A tool that is gone is not started. -/
theorem workAt_of_gone (hfile : w.hasFile p = .ok false) :
    workAt launch ⟨configured?, limit?, none⟩ p source destination w =
      .error (missing [p.text]) w := by
  have hwork := disassemble_of_resolved source destination
    (isFile_workspaceWith launch w ⟨configured?, limit?, some p⟩ p)
  rw [hfile] at hwork
  exact workAt_of_disassemble source destination (x := .error _) hwork

/-- The tree is what the started program leaves. -/
theorem workAt_of_isFile (launch : Launcher) (configured? : Option Path) (limit? : Option Int)
    (hfile : w.hasFile p = .ok true) :
    ∃ log, workAt launch ⟨configured?, limit?, none⟩ p source destination w =
      leaving (ending p (launch w limit? (commandAt p source destination)).2)
        { w with tree := (launch w limit? (commandAt p source destination)).1, log } := by
  generalize hstarted : launch w limit? (commandAt p source destination) = started
  obtain ⟨tree, result⟩ := started
  have hstart : ((workspaceWith launch).start (commandAt p source destination) limit?).onSecond
      ((⟨configured?, limit?, some p⟩ : Tool), w) =
      .ok result (⟨configured?, limit?, some p⟩, { w with tree }) := by
    simp only [Work.onSecond, workspaceWith, get_bind, hstarted]
    rfl
  have hlog (level : LogLevel) (text : String) (w : Workspace) :
      ∃ w', (workspaceWith launch).log level text w = .ok () w' ∧ ∃ log, w' = { w with log } :=
    ⟨_, rfl, _, rfl⟩
  obtain ⟨_, ⟨log, rfl⟩, hends⟩ := startFor_ends (fun w => ⟨w.log, rfl⟩) hlog hstart
  have hwork := disassemble_of_resolved source destination
    (isFile_workspaceWith launch w ⟨configured?, limit?, some p⟩ p)
  rw [hfile] at hwork
  exact ⟨log, workAt_of_disassemble source destination (hwork.trans hends)⟩

end

end ILDump.Tool
