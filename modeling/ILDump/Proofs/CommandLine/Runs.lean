import ILDump.Proofs.CommandLine.Chronicle

/-!
# Runs of a command

The stage of the tool looks for the tool when it prepares, and from then on its place is
settled. `settledTool` is that stage with the look left out: a run that starts where the tool
was found cannot tell the two apart, and the calls of the second one mention one place only.
So every call of a run keeps `Recorded`, a chronicle with what was printed, and a run has a
chronicle from the tree it starts with to the one it leaves.
-/

namespace ILDump

namespace Pipeline

/-! ### Stages in order -/

variable {σ : Type}

theorem stageOrder_of_pairwise {stages : List (Stage σ)}
    (h : stages.Pairwise fun a b => a.rank ≤ b.rank) :
    stageOrder stages = List.range stages.length := by
  obtain ⟨hperm, hascending⟩ := isRankOrder_stageOrder stages
  have hmem {i : Nat} (hi : i ∈ stageOrder stages) : i < stages.length :=
    List.mem_range.mp (hperm.mem_iff.mp hi)
  have hstrict : (stageOrder stages).Pairwise (· < ·) := by
    refine hascending.imp_of_mem ?_
    intro i j hi hj hrank
    have hi' := List.getElem?_eq_getElem (hmem hi)
    have hj' := List.getElem?_eq_getElem (hmem hj)
    rcases hrank _ _ hi' hj' with hlt | ⟨-, hlt⟩
    · by_contra hle
      rcases Nat.lt_or_eq_of_le (Nat.le_of_not_lt hle) with hji | rfl
      · have hback := List.pairwise_iff_getElem.mp h j i (hmem hj) (hmem hi) hji
        omega
      · omega
    · exact hlt
  refine hperm.eq_of_pairwise ?_ hstrict List.pairwise_lt_range
  intro i j _ _ hij hji
  omega

namespace Surroundings

variable (s : Surroundings σ) (plan : Plan) (inputs : List Path) {stage stage' : Stage σ}
  {rest : List (Stage σ)} {st : σ}

theorem runInOrder_congr (h : stage.prepare st = stage'.prepare st) :
    s.runInOrder plan (stage :: rest) inputs st = s.runInOrder plan (stage' :: rest) inputs st := by
  simp only [runInOrder, Stage.prepareAll, bind_assoc]
  exact bind_eq_of_eq h

variable (hrank : stage'.rank = stage.rank)
  (hsorted : (stage :: rest).Pairwise fun a b => a.rank ≤ b.rank)
  (h : stage.prepare st = stage'.prepare st)
include hrank hsorted h

/-- A first stage that prepares in the same way where a run starts makes no difference to it. -/
theorem run_congr :
    s.run plan (stage :: rest) inputs st = s.run plan (stage' :: rest) inputs st := by
  have hsorted' : (stage' :: rest).Pairwise fun a b => a.rank ≤ b.rank := by
    rw [List.pairwise_cons] at hsorted ⊢
    rwa [hrank]
  rw [s.run_eq_runInOrder plan hsorted, s.run_eq_runInOrder plan hsorted']
  exact s.runInOrder_congr plan inputs h

theorem trace_congr :
    s.trace plan (stage :: rest) inputs st = s.trace plan (stage' :: rest) inputs st := by
  have hobserved {stages : List (Stage σ)} (h : stages.Pairwise fun a b => a.rank ≤ b.rank) :
      (observedStages stages).Pairwise fun a b => a.rank ≤ b.rank := by
    rw [observedStages, List.pairwise_map]
    have hranks : (stages.zipIdx.map (·.1)).Pairwise fun a b => a.rank ≤ b.rank := by
      rwa [List.zipIdx_map_fst]
    have hpairs := List.pairwise_map.mp hranks
    exact hpairs
  have hprepare : (observedStage 0 stage).prepare ([], st) =
      (observedStage 0 stage').prepare ([], st) := by
    refine bind_eq_of_eq ?_
    simp only [noted, h]
  have hrun := s.observed.run_congr plan inputs hrank (hobserved hsorted) hprepare
  exact congrArg (fun result => (stateAfter result).1) hrun

end Surroundings

end Pipeline

namespace Disassembler

/-- Whatever ends a disassembly is a diagnosis about it, trouble with the disk, or a name without
    end. -/
theorem error_cases {decoders : Decoders} {order : MemberOrder} {source destination : Path}
    {w w' : Workspace} {f : Failure}
    (h : disassembleWith decoders order source destination w = .error f w') :
    (∃ d, f = .diagnosed .disassembly d) ∨ (∃ e p, f = .disk e p) ∨ f = .endless := by
  rcases loadWith_cases decoders source w with ⟨bytes, image, -, -, hload⟩ | ⟨e, hload⟩
  · rw [disassembleWith_of_load_ok order destination hload] at h
    split at h
    · cases h
    · cases h
      exact .inl ⟨_, rfl⟩
  · rw [disassembleWith_of_load_error order destination hload] at h
    cases h
    rw [loadWith_eq] at hload
    cases hread : w.read source with
    | error e' =>
      rw [hread] at hload
      cases e' <;> cases hload <;> simp
    | ok bytes =>
      rw [hread] at hload
      dsimp only at hload
      cases himage : ModuleImage.ofBytesWith decoders source.text bytes with
      | ok image =>
        rw [himage] at hload
        cases hload
      | error fault =>
        rw [himage] at hload
        cases hload
        by_cases hendless : fault = .endless
        · exact .inr (.inr (by rw [hendless, loadFailure, if_pos rfl]))
        · obtain ⟨d, hd, -⟩ := exists_loadFailure_eq source.text hendless
          exact .inl ⟨d, hd⟩

end Disassembler

namespace CommandLine

open Pipeline

theorem makeDirectories_workspace (file : Bytes → Except ContainerFault OpenedFile) (path : Path)
    (w : Workspace) :
    (∀ f, outcome ((workspaceOpening file).makeDirectories path w) = .error f →
        ∃ e, f = .disk e path.text) ∧
      stateAfter ((workspaceOpening file).makeDirectories path w) =
        { w with tree := (Tree.makeDirectories w.cwd path.parts.length path w.tree).1 } := by
  simp only [workspaceOpening, Session.makeDirectories]
  rw [get_bind]
  generalize Tree.makeDirectories w.cwd path.parts.length path w.tree = result
  obtain ⟨tree, error?⟩ := result
  cases error? with
  | none =>
    constructor
    · intro f hf
      cases hf
    · rfl
  | some e =>
    constructor
    · intro f hf
      exact ⟨e, (Except.error.inj hf).symm⟩
    · rfl

/-! ### Keeping a record -/

/-- What has happened, told by the tree and by what was printed. -/
structure Recorded (s : Scene) (lo : Tree) (past : List Event) (w : Workspace) : Prop where
  cwd : w.cwd = s.here
  environment : w.environment = s.environment
  printed : w.printed.toList = past.filterMap Event.reportedLine?
  chronicle : Chronicle s lo past w.tree

namespace Recorded

variable {s : Scene} {lo : Tree} {past : List Event} {w w' : Workspace} {e : Event}
  (h : Recorded s lo past w)
include h

/-- The next event prints nothing, whatever it does to the tree. -/
theorem next {tree : Tree} {log : Array LogRecord} (hw' : w' = { w with tree, log })
    (hquiet : e.reportedLine? = none) (hleads : Leads s w.tree e tree) :
    Recorded s lo (past ++ [e]) w' := by
  subst hw'
  refine ⟨h.cwd, h.environment, ?_, h.chronicle.concat hleads⟩
  rw [List.filterMap_append, ← h.printed]
  simp [hquiet]

theorem callTool (configured? : Option Path) (source destination : Path) :
    Recorded s lo
      (past ++ [.called 0 source destination (outcome (Tool.workAt s.externals.launch
        ⟨configured?, s.limit?, none⟩ s.place source destination w))])
      (stateAfter (Tool.workAt s.externals.launch
        ⟨configured?, s.limit?, none⟩ s.place source destination w)) := by
  have hisFile : w.isFile s.place = w.tree.isFile s.here s.place := by
    rw [Workspace.isFile, h.cwd]
  cases hrefusal : w.tree.refusal? s.here s.place with
  | some e =>
    have hfile : w.hasFile s.place = .error (.disk e s.place.text) :=
      Workspace.hasFile_of_refused (h.cwd ▸ hrefusal)
    rw [Tool.workAt_of_unseen source destination hfile]
    exact h.next rfl rfl (.toolUnseen source destination hrefusal)
  | none =>
    have hseen : w.hasFile s.place = .ok (w.isFile s.place) :=
      Workspace.hasFile_of_unrefused (h.cwd ▸ hrefusal)
    cases hfile : w.isFile s.place with
    | true =>
      rw [hfile] at hseen
      obtain ⟨log, hwork⟩ :=
        Tool.workAt_of_isFile source destination s.externals.launch configured? s.limit? hseen
      rw [hwork, outcome_leaving, stateAfter_leaving]
      exact h.next rfl rfl
        (.toolStarted source destination rfl h.cwd h.environment (hisFile ▸ hfile))
    | false =>
      rw [hfile] at hseen
      rw [Tool.workAt_of_gone source destination hseen]
      exact h.next rfl rfl (.toolGone source destination hrefusal (hisFile ▸ hfile))

theorem callDisassembler {order : MemberOrder} (horder : s.order? = some order)
    (source destination : Path) :
    Recorded s lo
      (past ++ [.called 1 source destination
        (outcome (Disassembler.disassembleWith s.externals.decoders order source destination w))])
      (stateAfter
        (Disassembler.disassembleWith s.externals.decoders order source destination w)) := by
  rcases disassemble_cases s.externals.decoders order source destination w with
    ⟨content, tree, hlisting, hwrite, hres⟩ | ⟨f, -, hres, -⟩
  · rw [h.cwd] at hlisting hwrite
    rw [hres]
    exact h.next rfl rfl (.listed source destination horder hlisting hwrite)
  · rw [hres]
    exact h.next rfl rfl (.unlisted source destination w.tree (Disassembler.error_cases hres))

end Recorded

/-- The stage of the tool, with its place settled and the log of the search. -/
def settledTool (s : Scene) (configured? : Option Path) (log : Array LogRecord) :
    Stage Workspace where
  name := Tool.stageName
  rank := Tool.stageRank
  prepare := fun w =>
    .ok (Tool.workAt s.externals.launch ⟨configured?, s.limit?, none⟩ s.place) { w with log }

/-- What every call of a run keeps. -/
theorem recorded_invariant (s : Scene) (configured? : Option Path) (log : Array LogRecord)
    (lo : Tree) :
    Invariant (workspaceOpening s.externals.file)
      (settledTool s configured? log ::
        (s.order?.map (disassemblerWith s.externals.decoders)).toList)
      (Recorded s lo) where
  probe path past w h := by
    have hprobe : (workspaceOpening s.externals.file).probe path w =
        leaving (kindAt w.tree w.cwd path) w := probe_leaves path w
    rw [hprobe, outcome_leaving, stateAfter_leaving, h.cwd]
    exact h.next rfl rfl (.probed path w.tree)
  search root pattern past w h := by
    have hsearch : (workspaceOpening s.externals.file).search root pattern w =
        leaving (foundBelow w.tree w.cwd root pattern) w := search_leaves root pattern w
    rw [hsearch, outcome_leaving, stateAfter_leaving, h.cwd]
    exact h.next rfl rfl (.searched root pattern w.tree)
  isAssembly path past w h := by
    obtain ⟨log, hleaves⟩ := isAssemblyWith_leaves s.externals.file path w
    exact h.next hleaves rfl (.validated path rfl h.cwd)
  makeDirectories path past w h := by
    obtain ⟨hfails, hleaves⟩ := makeDirectories_workspace s.externals.file path w
    refine h.next hleaves rfl (.madeDirectories path ?_ hfails)
    exact Tree.grows_makeDirectories _ _ _
  log level text past w h := h.next rfl rfl (.logged level text w.tree)
  report line past w h := by
    refine ⟨h.cwd, h.environment, ?_, h.chronicle.concat (.reported line w.tree)⟩
    have hprinted : (stateAfter ((workspaceOpening s.externals.file).report line w)).printed =
        w.printed.push line := rfl
    rw [hprinted, Array.toList_push, h.printed, List.filterMap_append]
    rfl
  prepare i stage hi past w h := by
    rcases i with _ | i
    · obtain rfl := Option.some.inj hi
      exact h.next rfl rfl (.prepared 0 w.tree)
    · rw [List.getElem?_cons_succ] at hi
      cases horder : s.order? with
      | none => simp [horder] at hi
      | some order =>
        obtain ⟨rfl, rfl⟩ : i = 0 ∧ disassemblerWith s.externals.decoders order = stage := by
          simpa [horder, List.getElem?_singleton] using hi
        exact h.next rfl rfl (.prepared 1 w.tree)
  call i stage hi past w work w' _ hwork source destination past' v h := by
    rcases i with _ | i
    · obtain rfl := Option.some.inj hi
      cases hwork
      exact h.callTool configured? source destination
    · rw [List.getElem?_cons_succ] at hi
      cases horder : s.order? with
      | none => simp [horder] at hi
      | some order =>
        obtain ⟨rfl, rfl⟩ : i = 0 ∧ disassemblerWith s.externals.decoders order = stage := by
          simpa [horder, List.getElem?_singleton] using hi
        cases hwork
        exact h.callDisassembler horder source destination

theorem pairwise_stagesFor (x : Externals) (tool : Tool) (order? : Option MemberOrder) :
    (stagesFor x tool order?).Pairwise fun a b => a.rank ≤ b.rank := by
  cases order? with
  | none => exact List.pairwise_singleton _ _
  | some order =>
    have hrank : Tool.stageRank ≤ Disassembler.stageRank := by decide
    exact List.pairwise_pair.mpr hrank

/-- **A run has a chronicle** from the tree it starts with to the one it leaves, however it
    ends. -/
theorem recorded_run (s : Scene) (plan : Plan) (inputs : List Path) {configured? : Option Path}
    {w : Workspace} (hcwd : w.cwd = s.here) (henvironment : w.environment = s.environment)
    (hprinted : w.printed = #[]) (hplace : Tool.place w configured? = .ok (some s.place)) :
    Recorded s w.tree
      ((workspaceOpening s.externals.file).trace plan
        (stagesFor s.externals ⟨configured?, s.limit?, none⟩ s.order?) inputs w)
      (stateAfter ((workspaceOpening s.externals.file).run plan
        (stagesFor s.externals ⟨configured?, s.limit?, none⟩ s.order?) inputs w)) := by
  obtain ⟨log, hprepare⟩ := Tool.stage_prepare_of_place hplace
  let tool := Tool.stage (Tool.workspaceWith s.externals.launch) ⟨configured?, s.limit?, none⟩
  have hsettled : tool.prepare w = (settledTool s configured? log).prepare w := hprepare
  have hrank : (settledTool s configured? log).rank = tool.rank := rfl
  have hsorted := pairwise_stagesFor s.externals ⟨configured?, s.limit?, none⟩ s.order?
  unfold stagesFor at hsorted ⊢
  rw [(workspaceOpening s.externals.file).trace_congr plan inputs hrank hsorted hsettled,
    (workspaceOpening s.externals.file).run_congr plan inputs hrank hsorted hsettled]
  refine (recorded_invariant s configured? log w.tree).run plan inputs ?_
  refine ⟨hcwd, henvironment, ?_, .nil w.tree⟩
  rw [hprinted]
  rfl

end CommandLine

end ILDump
