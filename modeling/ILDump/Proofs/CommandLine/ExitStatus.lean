import ILDump.Proofs.CommandLine.Runs
import ILDump.Proofs.Pipeline.Guarantees
import ILDump.Proofs.Pipeline.Inputs

/-!
# How a command for listings ends

A command is refused before it looks at an input if its order is none or its tool is nowhere.
Otherwise there is a run, and a diagnosis that ends the run makes the status one. By the
protocol of runs a run ends with the first event that is fatal, and by its chronicle such an
event comes with a diagnosis exactly if it is trouble: an input that is nothing, or a
disassembly that fails. A tool that is gone is neither, since it only skips a file.

What is printed are the files completed until then. Their listings are there when they are
reported. From then on only a later call can change them, and it may: two inputs can have one
destination.
-/

namespace ILDump.CommandLine

open Pipeline
open Settings (Opening Outside gives_effectiveLogLevel gives_optionOr)

/-! ### From the work to the status -/

/-- How a command ends whose work has ended in some way. -/
def concluded {α : Type} : EStateM.Result Failure Workspace α → EStateM.Result Failure Workspace Nat
  | .ok _ w => .ok 0 w
  | .error (.diagnosed _ d) w => conclude d w
  | .error f w => .error f w

/-- A diagnosis is logged and shown, and nothing else happens. -/
theorem exists_conclude_eq (d : Diagnosis) (w : Workspace) :
    ∃ log complaints, conclude d w = .ok 1 { w with log, complaints } :=
  ⟨_, _, rfl⟩

theorem bind_unlessDiagnosed (work : Session Unit) (w : Workspace) :
    (do
      match ← work.unlessDiagnosed with
      | some d => conclude d
      | none => return 0 : Session Nat) w = concluded (work w) := by
  cases hwork : work w with
  | ok u w' =>
    have hdone : work.unlessDiagnosed w = .ok none w' := by
      unfold Work.unlessDiagnosed
      rw [hwork]
    rw [bind_eq_of_ok hdone]
    rfl
  | error f w' =>
    cases f with
    | diagnosed kind d =>
      have hdone : work.unlessDiagnosed w = .ok (some d) w' := by
        unfold Work.unlessDiagnosed
        rw [hwork]
      rw [bind_eq_of_ok hdone]
      rfl
    | _ =>
      refine bind_eq_of_error ?_
      unfold Work.unlessDiagnosed
      rw [hwork]

section

variable {o : Outside} {settings : List (String × String)} (h : o.settings? = some settings)
  (x : Externals) (level : Given) {options : ListingOptions}
include h

theorem exists_runWith_eq (options : ListingOptions) :
    ∃ w, Opening o settings w ∧
      runWith x ⟨level, .list options⟩ (.ofTree o.tree o.cwd o.environment) =
        concluded (list x options w) := by
  obtain ⟨_, hgives⟩ := gives_effectiveLogLevel h level.text?
  obtain ⟨w, hw, hlevel⟩ := hgives _ (.ofTree o settings)
  refine ⟨w, hw, ?_⟩
  unfold runWith
  rw [bind_eq_of_ok hlevel]
  exact bind_unlessDiagnosed (list x options) w

/-- A command ends as its run does, once options and settings are weighed. -/
theorem exists_run {stages : List (Stage Workspace)}
    (hstages : Gives (Opening o settings) (CommandLine.stages x options) (.ok stages)) :
    ∃ w, Opening o settings w ∧
      runWith x ⟨level, .list options⟩ (.ofTree o.tree o.cwd o.environment) =
        concluded ((workspaceOpening x.file).run
          (options.plan (options.choices o.environment settings) o.cwd)
          stages (options.paths.map Path.ofString) w) := by
  obtain ⟨w₁, hw₁, hend⟩ := exists_runWith_eq h x level options
  obtain ⟨w₂, hw₂, hroot⟩ :=
    gives_optionOr h options.outputDirectory.text? Settings.outputKey w₁ hw₁
  obtain ⟨w₃, hw₃, hstages⟩ := hstages w₂ hw₂
  obtain ⟨w, hw, hcwd⟩ := gives_workingDirectory h _ w₃ hw₃
  have hlist : list x options w₁ =
      (do
        let _ ← (workspaceOpening x.file).run
          (options.plan (options.choices o.environment settings) o.cwd)
          stages (options.paths.map Path.ofString) : Session Unit) w := by
    unfold list
    rw [bind_eq_of_ok hroot, bind_eq_of_ok hstages, bind_eq_of_ok hcwd]
    rfl
  refine ⟨w, hw, ?_⟩
  rw [hend, hlist]
  cases hrun : (workspaceOpening x.file).run
      (options.plan (options.choices o.environment settings) o.cwd)
      stages (options.paths.map Path.ofString) w with
  | ok records w' =>
    rw [bind_eq_of_ok hrun]
    rfl
  | error f w' =>
    rw [bind_eq_of_error hrun]
    cases f <;> rfl

/-- A command that comes to no stages does not come to a run. -/
theorem exists_runWith_error {f : Failure}
    (hstages : Gives (Opening o settings) (CommandLine.stages x options) (.error f)) :
    ∃ w, Opening o settings w ∧
      runWith x ⟨level, .list options⟩ (.ofTree o.tree o.cwd o.environment) =
        concluded (.error f w : EStateM.Result Failure Workspace Unit) := by
  obtain ⟨w₁, hw₁, hend⟩ := exists_runWith_eq h x level options
  obtain ⟨w₂, hw₂, hroot⟩ :=
    gives_optionOr h options.outputDirectory.text? Settings.outputKey w₁ hw₁
  obtain ⟨w, hw, hstages⟩ := hstages w₂ hw₂
  have hlist : list x options w₁ = .error f w := by
    unfold list
    rw [bind_eq_of_ok hroot]
    exact bind_eq_of_error hstages
  exact ⟨w, hw, by rw [hend, hlist]⟩

end

/-! ### Refusals -/

/-- Where the tool is found, if that can be told. -/
def toolPlace (choices : Choices) (o : Outside) : Except Failure (Option Path) :=
  Tool.place (.ofTree o.tree o.cwd o.environment) choices.toolPath?

/-- Why a command does not look at its inputs: the disassembler is wanted and its order is none,
    or the tool is nowhere. -/
def ListingOptions.Refused (options : ListingOptions) (choices : Choices) (o : Outside) : Prop :=
  options.replaces = true ∧ Unicode.lower choices.orderName ∉ ["name", "declaration", "token"] ∨
    toolPlace choices o = .ok none

instance (choices : Choices) (o : Outside) : Decidable (toolPlace choices o = .ok none) :=
  match toolPlace choices o with
  | .ok none => isTrue rfl
  | .ok (some _) => isFalse (by simp)
  | .error _ => isFalse (by simp)

instance (options : ListingOptions) (choices : Choices) (o : Outside) :
    Decidable (options.Refused choices o) :=
  inferInstanceAs (Decidable (_ ∨ _))

/-- The order of the disassembler, if it is wanted. -/
def ListingOptions.order? (options : ListingOptions) (choices : Choices) : Option MemberOrder :=
  if options.replaces then choices.order? else none

theorem toolPlace_opening {o : Outside} {settings : List (String × String)} {w : Workspace}
    (hw : Opening o settings w) (choices : Choices) :
    toolPlace choices o = Tool.place w choices.toolPath? :=
  (Tool.place_congr hw.tree hw.cwd hw.environment choices.toolPath?).symm

/-- A run does not come further than to a first stage that fails to prepare. -/
theorem run_of_prepare_error (x : Externals) (plan : Plan) (inputs : List Path)
    (order? : Option MemberOrder) {tool : Tool} {f : Failure} {w w' : Workspace}
    (hprepare : (Tool.stage (Tool.workspaceWith x.launch) tool).prepare w = .error f w') :
    (workspaceOpening x.file).run plan (stagesFor x tool order?) inputs w = .error f w' := by
  rw [(workspaceOpening x.file).run_eq_runInOrder plan (pairwise_stagesFor x _ order?)]
  exact bind_eq_of_error (bind_eq_of_error hprepare)

section

variable {o : Outside} {settings : List (String × String)} (h : o.settings? = some settings)
  (x : Externals) (level : Given) {options : ListingOptions}
include h

/-- A command that is refused prints nothing and leaves everything as it was. -/
theorem refused_runWith (hrefused : options.Refused (options.choices o.environment settings) o) :
    ∃ w, runWith x ⟨level, .list options⟩ (.ofTree o.tree o.cwd o.environment) = .ok 1 w ∧
      w.printed = #[] ∧ w.tree = o.tree := by
  have hconclude {d : Diagnosis} {w : Workspace} (hprinted : w.printed = #[])
      (htree : w.tree = o.tree) :
      ∃ w', conclude d w = .ok 1 w' ∧ w'.printed = #[] ∧ w'.tree = o.tree := by
    obtain ⟨log, complaints, hend⟩ := exists_conclude_eq d w
    exact ⟨_, hend, hprinted, htree⟩
  by_cases horder : options.replaces = true ∧ (options.choices o.environment settings).order? = none
  · obtain ⟨d, hstages⟩ := gives_stages_refused h x horder.1 horder.2
    obtain ⟨w, hw, hend⟩ := exists_runWith_error h x level hstages
    rw [hend]
    exact hconclude hw.unprinted hw.tree
  · rcases hrefused with ⟨hreplaces, hname⟩ | hnowhere
    · exact absurd ⟨hreplaces, (Choices.order?_eq_none_iff _).mpr hname⟩ horder
    · have hstages := gives_stages h x fun hreplaces hnone => horder ⟨hreplaces, hnone⟩
      obtain ⟨w, hw, hend⟩ := exists_run h x level hstages
      rw [toolPlace_opening hw] at hnowhere
      obtain ⟨searched, log, hprepare⟩ := Tool.stage_prepare_of_nowhere hnowhere
      rw [hend, Choices.tool, Tool.ofOptions, run_of_prepare_error x _ _ _ hprepare]
      exact hconclude hw.unprinted hw.tree

/-- Where it cannot be told whether there is a tool, a command has no status. It has printed
    nothing by then and leaves everything as it was. -/
theorem untold_runWith {f : Failure}
    (horder : options.replaces = true → (options.choices o.environment settings).order? ≠ none)
    (htrouble : toolPlace (options.choices o.environment settings) o = .error f) :
    ∃ w, runWith x ⟨level, .list options⟩ (.ofTree o.tree o.cwd o.environment) = .error f w ∧
      w.printed = #[] ∧ w.tree = o.tree := by
  obtain ⟨w, hw, hend⟩ := exists_run h x level (gives_stages h x horder)
  rw [toolPlace_opening hw] at htrouble
  obtain ⟨log, hprepare⟩ := Tool.stage_prepare_of_trouble htrouble
  rw [hend, Choices.tool, Tool.ofOptions, run_of_prepare_error x _ _ _ hprepare]
  refine ⟨{ w with log }, ?_, hw.unprinted, hw.tree⟩
  rcases Tool.place_error htrouble with ⟨e, p, rfl⟩ | ⟨e, rfl⟩ <;> rfl

end

/-! ### Ends of runs -/

theorem isTrouble_fatal {e : Event} (h : e.isTrouble = true) : e.fatal? ≠ none := by
  cases e with
  | probed path r =>
    rcases r with f | kind?
    · exact nofun
    · cases kind? with
      | none => exact nofun
      | some kind => cases h
  | called i source destination r =>
    rcases r with f | u
    · cases f with
      | diagnosed work d =>
        cases work with
        | tool => cases h
        | _ => exact nofun
      | _ => exact nofun
    · cases h
  | _ => cases h

/-- The last stage of a run. -/
def Scene.lastStage (s : Scene) : Nat :=
  if s.order?.isSome then 1 else 0

theorem getLast?_stageOrder_stagesFor (s : Scene) (tool : Tool) :
    (stageOrder (stagesFor s.externals tool s.order?)).getLast? = some s.lastStage := by
  rw [stageOrder_of_pairwise (pairwise_stagesFor s.externals tool s.order?), Scene.lastStage]
  cases s.order? with
  | none => rfl
  | some order => rfl

/-- How a command ends after the events of its run. -/
structure EndsAfter (s : Scene) (inputs : List Path) (lo : Tree) (events : List Event)
    (result : EStateM.Result Failure Workspace Nat) : Prop where
  /-- What happens to the files, from before the run to its end. -/
  chronicle : Chronicle s lo events (stateAfter result).tree
  reached : events.filterMap Event.probedPath? <+: inputs
  reachedAll : ∀ w, result = .ok 0 w → events.filterMap Event.probedPath? = inputs
  /-- An input is what it is when the run gets there. -/
  probed : ∀ before path r after, events = before ++ .probed path r :: after →
    ∃ t, Chronicle s lo before t ∧ r = kindAt t s.here path
  status : ∀ n w, result = .ok n w →
    (n = 0 ∧ ∀ e ∈ events, e.isTrouble = false) ∨ (n = 1 ∧ ∃ e ∈ events, e.isTrouble = true)
  /-- Without a status there was a failure that no diagnosis stands for. -/
  raised : ∀ f w, result = .error f w →
    (∀ work d, f ≠ .diagnosed work d) ∧ ∃ opening e, events = opening ++ [e] ∧ e.fatal? = some f
  printed : (stateAfter result).printed.toList =
    events.filterMap (Event.finishedLine? s.lastStage)
  /-- A completed file has its listing, and keeps it unless a later call changes it. -/
  dumps : ∀ before source destination after,
    events = before ++ .called s.lastStage source destination (.ok ()) :: after →
    ∃ t t', Chronicle s lo before t ∧
      Leads s t (.called s.lastStage source destination (.ok ())) t' ∧
      Chronicle s t' after (stateAfter result).tree ∧
      (∀ order, s.order? = some order → ∃ content,
        listing? s.externals.decoders t s.here order source = some content ∧
        t'.read s.here destination = .ok content) ∧
      ∀ content, t'.read s.here destination = .ok content →
        (stateAfter result).tree.read s.here destination = .ok content ∨
          Overwritten s destination content t' after (stateAfter result).tree

theorem stateAfter_concluded {α : Type} (r : EStateM.Result Failure Workspace α) :
    (stateAfter (concluded r)).tree = (stateAfter r).tree ∧
      (stateAfter (concluded r)).printed = (stateAfter r).printed := by
  cases r with
  | ok a w => exact ⟨rfl, rfl⟩
  | error f w => cases f <;> exact ⟨rfl, rfl⟩

section

variable {s : Scene} {lo : Tree} {events : List Event}

/-- The end of a run decides the status. -/
theorem status_of_settled {t : Tree} {r : EStateM.Result Failure Workspace (List Record)}
    (hchronicle : Chronicle s lo events t) (hsettled : Settled events (outcome r)) :
    (∃ w, concluded r = .ok 0 w ∧ (∃ records, outcome r = .ok records) ∧
        ∀ e ∈ events, e.isTrouble = false) ∨
      (∃ w, concluded r = .ok 1 w ∧ ∃ e ∈ events, e.isTrouble = true) ∨
      ∃ f w, concluded r = .error f w ∧ (∀ work d, f ≠ .diagnosed work d) ∧
        ∃ opening e, events = opening ++ [e] ∧ e.fatal? = some f := by
  cases r with
  | ok records w =>
    refine .inl ⟨w, rfl, ⟨records, rfl⟩, fun e he => ?_⟩
    by_contra htrouble
    exact isTrouble_fatal (Bool.not_eq_false _ ▸ htrouble) (hsettled e he)
  | error f w =>
    obtain ⟨opening, e, rfl, hfatal, -⟩ := hsettled
    obtain ⟨before, after, hleads⟩ := hchronicle.exists_leads (e := e) (by simp)
    have htrouble := hleads.isTrouble_iff hfatal
    right
    cases f with
    | diagnosed work d =>
      exact .inl ⟨_, rfl, e, by simp, htrouble.mpr ⟨work, d, rfl⟩⟩
    | _ => exact .inr ⟨_, w, rfl, nofun, opening, e, rfl, hfatal⟩

/-- What the last stage leaves when it comes back. -/
theorem Leads.read_of_last {t t' : Tree} {source destination : Path} {order : MemberOrder}
    (h : Leads s t (.called s.lastStage source destination (.ok ())) t')
    (horder : s.order? = some order) :
    ∃ content, listing? s.externals.decoders t s.here order source = some content ∧
      t'.read s.here destination = .ok content := by
  have hlast : s.lastStage = 1 := by
    rw [Scene.lastStage, horder]
    rfl
  rw [hlast] at h
  cases h with
  | listed source destination horder' hlisting hwrite =>
    obtain rfl := Option.some.inj (horder.symm.trans horder')
    obtain ⟨-, -, hread, -⟩ := Tree.read_of_write hwrite
    exact ⟨_, hlisting, hread⟩

end

theorem endsAfter_run (s : Scene) (plan : Plan) (inputs : List Path) {configured? : Option Path}
    {w : Workspace} (hcwd : w.cwd = s.here) (henvironment : w.environment = s.environment)
    (hprinted : w.printed = #[]) (hplace : Tool.place w configured? = .ok (some s.place)) :
    EndsAfter s inputs w.tree
      ((workspaceOpening s.externals.file).trace plan
        (stagesFor s.externals ⟨configured?, s.limit?, none⟩ s.order?) inputs w)
      (concluded ((workspaceOpening s.externals.file).run plan
        (stagesFor s.externals ⟨configured?, s.limit?, none⟩ s.order?) inputs w)) := by
  have hrecorded := recorded_run s plan inputs hcwd henvironment hprinted hplace
  have hprotocol := ((workspaceOpening s.externals.file).run_protocol plan
    (stagesFor s.externals ⟨configured?, s.limit?, none⟩ s.order?) inputs w).2
  have hlast := getLast?_stageOrder_stagesFor s ⟨configured?, s.limit?, none⟩
  generalize (workspaceOpening s.externals.file).trace plan
    (stagesFor s.externals ⟨configured?, s.limit?, none⟩ s.order?) inputs w = events
    at hrecorded hprotocol ⊢
  generalize (workspaceOpening s.externals.file).run plan
    (stagesFor s.externals ⟨configured?, s.limit?, none⟩ s.order?) inputs w = r
    at hrecorded hprotocol ⊢
  obtain ⟨htree, hlines⟩ := stateAfter_concluded r
  obtain ⟨hreached, hreachedAll⟩ := probedPaths_of_conforms hprotocol.course
  have hstatus := status_of_settled hrecorded.chronicle hprotocol.settled
  refine ⟨htree ▸ hrecorded.chronicle, hreached, ?reachedAll, ?probed, ?status, ?raised, ?printed,
    ?dumps⟩
  case reachedAll =>
    intro w' hresult
    rcases hstatus with ⟨_, -, ⟨records, hrecords⟩, -⟩ | ⟨_, hend, -⟩ | ⟨_, _, hend, -⟩
    · exact hreachedAll records hrecords
    · cases hend.symm.trans hresult
    · cases hend.symm.trans hresult
  case probed =>
    rintro before path r' after rfl
    obtain ⟨t, hbefore, hrest⟩ := Chronicle.append_iff.mp hrecorded.chronicle
    cases hrest with
    | cons hleads _ =>
      cases hleads
      exact ⟨t, hbefore, rfl⟩
  case status =>
    intro n w' hresult
    rcases hstatus with ⟨_, hend, -, hcalm⟩ | ⟨_, hend, htrouble⟩ | ⟨_, _, hend, -⟩
    · cases hend.symm.trans hresult
      exact .inl ⟨rfl, hcalm⟩
    · cases hend.symm.trans hresult
      exact .inr ⟨rfl, htrouble⟩
    · cases hend.symm.trans hresult
  case raised =>
    intro f w' hresult
    rcases hstatus with ⟨_, hend, -⟩ | ⟨_, hend, -⟩ | ⟨_, _, hend, hraised⟩
    · cases hend.symm.trans hresult
    · cases hend.symm.trans hresult
    · cases hend.symm.trans hresult
      exact hraised
  case printed =>
    have hfinished := hprotocol.upToDate _ hlast events [] (List.append_nil events).symm
    have hnone : events.getLast?.bind (Event.finishedLine? s.lastStage) = none := by
      rw [Option.bind_eq_none_iff]
      intro e he
      obtain ⟨opening, rfl⟩ := List.getLast?_eq_some_iff.mp he
      have hopen := hprotocol.calm opening e rfl
      cases e with
      | called i source destination r' =>
        cases r' with
        | ok u => cases hopen
        | error f => rfl
      | _ => rfl
    rw [hlines, hrecorded.printed, hfinished, hnone]
    simp
  case dumps =>
    rintro before source destination after rfl
    obtain ⟨t, hbefore, hrest⟩ := Chronicle.append_iff.mp hrecorded.chronicle
    cases hrest with
    | @cons _ t' _ _ _ hleads hafter =>
      rw [htree]
      exact ⟨t, t', hbefore, hleads, hafter, fun order horder => hleads.read_of_last horder,
        fun content hread => hafter.kept_or_overwritten hread⟩

/-! ### Two inputs with one destination -/

/-- A file that names an assembly and has a field whose signature is empty. -/
def unsignedField : Bytes :=
  List.flatten [
    [0x4D, 0x5A], .replicate 58 0, [64, 0, 0, 0, 0x50, 0x45], .replicate 18 0,
    [224, 0, 0, 0, 0x0B, 0x01], .replicate 82 0, [0x38, 0x01, 0, 0, 152, 0, 0, 0],
    .replicate 116 0, [164, 0, 0, 0, 72, 0, 0, 0], .replicate 8 0,
    [0x42, 0x53, 0x4A, 0x42], .replicate 14 0, [2, 0],
    [52, 0, 0, 0, 92, 0, 0, 0], Utf8.encode "#~", [0, 0],
    [144, 0, 0, 0, 8, 0, 0, 0], Utf8.encode "#Strings", [0, 0, 0, 0],
    .replicate 8 0, [0x15, 0, 0, 0, 1], .replicate 11 0,
    [1, 0, 0, 0, 1, 0, 0, 0, 1, 0, 0, 0, 1, 0, 0, 0],
    [0, 0, 1, 0, 0, 0, 0, 0, 0, 0],
    [0, 0, 0, 0, 1, 0, 0, 0, 0, 0, 1, 0, 1, 0], [0, 0, 1, 0, 0, 0],
    .replicate 18 0, [1, 0, 0, 0],
    [0], Utf8.encode "App", .replicate 4 0]

/-- Writes the name of what it is given to where it is told to. -/
def namingTool : String :=
  "#!/bin/sh\nfor a in \"$@\"; do case \"$a\" in /out=*) printf '%s\\n' \"$1\" > " ++
    "\"$\x7ba#/out=\x7d\";; esac; done\n"

def twoFiles : Tree :=
  .ofEntries [(["a"], .directory), (["a", "App.dll"], .file emptyAssembly false),
    (["b"], .directory), (["b", "App.dll"], .file unsignedField false),
    (["ildasm.exe"], .file (Utf8.encode namingTool) true)]

/-- A command for the listings of these files, in the directory `o`. -/
def listingsOf (paths : List String) : ListingOptions :=
  { paths, outputDirectory := .text "o" }

/-! ### The command -/

/-- **How a command for listings ends.** Whatever the files, the environment, the program that
    the tool turns out to be and the decoders, if the file of settings can be read, options and
    settings are weighed as `choices` says. A command that is refused has status one, prints
    nothing and touches no file, whatever its inputs are. Otherwise the tool has a place, as far
    as that can be told, and the command ends as the events of its run tell. -/
theorem exit_of_listing (x : Externals) (level : Given) (options : ListingOptions)
    (o : Outside) {settings : List (String × String)} (h : o.settings? = some settings) :
    let choices := options.choices o.environment settings
    let inputs := options.paths.map Path.ofString
    let result := runWith x ⟨level, .list options⟩ (.ofTree o.tree o.cwd o.environment)
    (options.Refused choices o →
      ∃ w, result = .ok 1 w ∧ w.printed = #[] ∧ w.tree = o.tree) ∧
    (¬ options.Refused choices o → ∀ place?, toolPlace choices o = .ok place? →
      ∃ place w, place? = some place ∧ Opening o settings w ∧
        EndsAfter ⟨x, place, choices.tool.timeout?, options.order? choices, o.cwd, o.environment⟩
          inputs o.tree
          ((workspaceOpening x.file).trace (options.plan choices o.cwd)
            (stagesFor x choices.tool (options.order? choices)) inputs w)
          result) := by
  intro choices inputs result
  refine ⟨refused_runWith h x level, fun hrefused place? hplace => ?_⟩
  have hwanted : options.replaces = true → choices.order? ≠ none := by
    intro hreplaces hnone
    exact hrefused (.inl ⟨hreplaces, choices.order?_eq_none_iff.mp hnone⟩)
  obtain ⟨place, rfl⟩ : ∃ place, place? = some place := by
    refine Option.ne_none_iff_exists'.mp ?_
    rintro rfl
    exact hrefused (.inr hplace)
  obtain ⟨w, hw, hend⟩ := exists_run h x level (gives_stages h x hwanted)
  refine ⟨place, w, rfl, hw, ?_⟩
  have hresult : result = concluded ((workspaceOpening x.file).run (options.plan choices o.cwd)
      (stagesFor x choices.tool (options.order? choices)) inputs w) := hend
  rw [toolPlace_opening hw] at hplace
  rw [hresult, ← hw.tree]
  exact endsAfter_run
    ⟨x, place, choices.tool.timeout?, options.order? choices, o.cwd, o.environment⟩
    (options.plan choices o.cwd) inputs hw.cwd hw.environment hw.unprinted hplace

/-- With an order that is none a command is refused. With the usual one it is not. -/
theorem exit_of_listing_twoFiles :
    let options := listingsOf ["a/App.dll", "b/App.dll"]
    let choices := options.choices [] []
    (∃ w, run ⟨.absent, .list options⟩
        (.ofTree twoFiles [] [(Settings.orderKey, "sideways")]) = .ok 1 w ∧
      w.printed = #[] ∧ w.tree = twoFiles) ∧
    options.order? choices = some .byName ∧ ∃ place w,
      EndsAfter ⟨.standard, place, choices.tool.timeout?, options.order? choices, [], []⟩
        (options.paths.map Path.ofString) twoFiles
        (workspace.trace (options.plan choices [])
          (stagesFor .standard choices.tool (options.order? choices))
          (options.paths.map Path.ofString) w)
        (run ⟨.absent, .list options⟩ (.ofTree twoFiles [] [])) := by
  intro options choices
  have hsideways : Outside.settings? ⟨twoFiles, [], [(Settings.orderKey, "sideways")]⟩ =
      some [] := by decide +kernel
  have husual : Outside.settings? ⟨twoFiles, [], []⟩ = some [] := by decide +kernel
  refine ⟨?refused, by decide +kernel, ?ended⟩
  case refused =>
    exact (exit_of_listing .standard .absent options _ hsideways).1 (by decide +kernel)
  case ended =>
    obtain ⟨place?, hplace⟩ : ∃ place?, toolPlace choices ⟨twoFiles, [], []⟩ = .ok place? :=
      ⟨some (.ofString "/ildasm.exe"), by rfl⟩
    obtain ⟨place, w, -, -, hends⟩ :=
      (exit_of_listing .standard .absent options _ husual).2 (by decide +kernel) place? hplace
    exact ⟨place, w, hends⟩

/-! ### What is overwritten -/

/-- `list` with its stages as they are, since they are in order already. -/
def listInOrder (x : Externals) (options : ListingOptions) : Session Unit := do
  let outputRoot? ← Settings.optionOr options.outputDirectory.text? Settings.outputKey
  let stages ← stages x options
  let plan := Plan.ofOptions (← workingDirectory outputRoot?) (outputRoot?.map Path.ofString)
    options.keepStructure (options.pattern.text?.getD "")
  let _ ← (workspaceOpening x.file).runInOrder plan stages (options.paths.map Path.ofString)

theorem list_eq_listInOrder (x : Externals) (options : ListingOptions) :
    list x options = listInOrder x options := by
  have hrun (plan : Plan) (tool : Tool) (order? : Option MemberOrder) (inputs : List Path) :
      (workspaceOpening x.file).run plan (stagesFor x tool order?) inputs =
        (workspaceOpening x.file).runInOrder plan (stagesFor x tool order?) inputs :=
    (workspaceOpening x.file).run_eq_runInOrder plan (pairwise_stagesFor x tool order?) inputs
  have halone (plan : Plan) (tool : Tool) := hrun plan tool none
  have hboth (plan : Plan) (tool : Tool) (order : MemberOrder) := hrun plan tool (some order)
  simp only [stagesFor, Option.map_none, Option.map_some, Option.toList_none,
    Option.toList_some] at halone hboth
  unfold list listInOrder stages
  by_cases hreplaces : options.replaces = true
  · simp only [if_pos hreplaces, bind_assoc, pure_bind, hboth]
  · simp only [if_neg hreplaces, bind_assoc, pure_bind, halone]

def runInOrder (level : Given) (options : ListingOptions) : Session Nat := do
  let _ ← Settings.effectiveLogLevel level.text?
  match ← (listInOrder .standard options).unlessDiagnosed with
  | some d => conclude d
  | none => return 0

theorem run_eq_runInOrder (level : Given) (options : ListingOptions) :
    run ⟨level, .list options⟩ = runInOrder level options := by
  rw [run, runWith, runCommand, list_eq_listInOrder]
  rfl

/-- The status, what was printed, and what there is at a path. -/
def shown (p : Path) :
    EStateM.Result Failure Workspace Nat → Option (Nat × List String × Option Bytes)
  | .ok n w => some (n, w.printed.toList, (w.tree.read w.cwd p).toOption)
  | .error _ _ => none

theorem exists_of_shown {p : Path} {r : EStateM.Result Failure Workspace Nat} {n : Nat}
    {lines : List String} {content : Bytes} (h : shown p r = some (n, lines, some content)) :
    ∃ w, r = .ok n w ∧ w.printed.toList = lines ∧ w.tree.read w.cwd p = .ok content := by
  cases r with
  | error f w => cases h
  | ok n' w =>
    cases hread : w.tree.read w.cwd p with
    | error e =>
      rw [shown, hread] at h
      cases h
    | ok content' =>
      rw [shown, hread] at h
      cases h
      exact ⟨w, rfl, rfl, hread⟩

/-- The destination of both files. -/
def sharedListing : Path :=
  .ofString "o/App.dll.il/App.dll.il"

def firstReport : String :=
  "ildasm a/App.dll to o/App.dll.il/App.dll.il"

def listingOfFirst? : Option Bytes :=
  listing? .standard twoFiles [] .byName (.ofString "a/App.dll")

set_option maxRecDepth 100000 in
theorem shown_first :
    shown sharedListing (runInOrder .absent (listingsOf ["a/App.dll"]) (.ofTree twoFiles [] [])) =
      some (0, [firstReport], listingOfFirst?) := by
  decide +kernel

set_option maxRecDepth 100000 in
theorem shown_both :
    shown sharedListing (runInOrder .absent (listingsOf ["a/App.dll", "b/App.dll"])
      (.ofTree twoFiles [] [])) = some (1, [firstReport], some (Utf8.encode "b/App.dll\n")) := by
  decide +kernel

/-- The first file is completed and reported. Then the tool writes what it has to say about the
    second one to the same place, and the disassembler fails before it could replace that. -/
theorem completed_listing_overwritten : ∃ content w w',
    listingOfFirst? = some content ∧
    (run ⟨.absent, .list (listingsOf ["a/App.dll"])⟩ (.ofTree twoFiles [] []) = .ok 0 w ∧
      w.printed.toList = [firstReport] ∧
      w.tree.read w.cwd sharedListing = .ok content) ∧
    (run ⟨.absent, .list (listingsOf ["a/App.dll", "b/App.dll"])⟩ (.ofTree twoFiles [] []) =
        .ok 1 w' ∧
      w'.printed.toList = [firstReport] ∧
      w'.tree.read w'.cwd sharedListing ≠ .ok content) := by
  obtain ⟨content, hcontent⟩ : ∃ content, listingOfFirst? = some content :=
    Option.isSome_iff_exists.mp (by decide +kernel)
  have hdifferent : listingOfFirst? ≠ some (Utf8.encode "b/App.dll\n") := by decide +kernel
  have hfirst := shown_first
  rw [hcontent] at hfirst
  obtain ⟨w, hw, hprinted, hread⟩ := exists_of_shown hfirst
  obtain ⟨w', hw', hprinted', hread'⟩ := exists_of_shown shown_both
  refine ⟨content, w, w', hcontent, ⟨?_, hprinted, hread⟩, ?_, hprinted', ?_⟩
  · rw [run_eq_runInOrder, hw]
  · rw [run_eq_runInOrder, hw']
  · intro hkept
    obtain rfl := Except.ok.inj (hread'.symm.trans hkept)
    exact hdifferent hcontent

end ILDump.CommandLine
