import ILDump.Proofs.Pipeline.OnWorkspace

/-!
# Different files, different destinations

The directories of a destination tell the last component of the input, and the file name
tells the name of the source; with the structure kept, what stands between tells the rest.
Two files therefore share a destination exactly if all these are the same: two file inputs
of one name, or two files of one name below directories of one name, at the same place in
them if the structure is kept. Below one directory the structure keeps all files apart.
-/

namespace ILDump

/-- A path that ends in a name and does not go up at last. -/
def Path.EndsInName (p : Path) : Prop :=
  ∃ parts s, p.parts = parts ++ [s] ∧ IsOrdinaryName s

theorem Path.EndsInName.isOrdinaryName_name {p : Path} (h : p.EndsInName) :
    IsOrdinaryName p.name := by
  obtain ⟨parts, s, hparts, hs⟩ := h
  rw [Path.name, hparts, List.getLast?_concat]
  exact hs

theorem Path.EndsInName.name_absolute {p : Path} (h : p.EndsInName) (cwd : Path) :
    (p.absolute cwd).name = p.name := by
  obtain ⟨parts, s, hparts, hs⟩ := h
  rw [name, name, (absolute_of_name hparts hs.ne_up).1, hparts, List.getLast?_concat,
    List.getLast?_concat]

theorem Path.EndsInName.parent_absolute {p : Path} (h : p.EndsInName) (cwd : Path) :
    (p.absolute cwd).parent = p.parent.absolute cwd := by
  obtain ⟨parts, s, hparts, hs⟩ := h
  have hresolved : (p.absolute cwd).parts = (p.parent.absolute cwd).parts ++ [s] ∧
      (p.absolute cwd).anchor = (p.parent.absolute cwd).anchor := absolute_of_name hparts hs.ne_up
  rw [parent, hresolved.1, hresolved.2, List.dropLast_concat]

namespace Candidate

variable {cwd outputRoot : Path} {keepStructure : Bool} {goesUp : Prop} {c d : Candidate}

/-- What is known of a file that was found: it is the input, or it is below it. A search goes up
    only if its pattern does. -/
structure Found (c : Candidate) (goesUp : Prop) : Prop where
  inputWellFormed : c.input.path.WellFormed
  wellFormed : c.path.WellFormed
  endsInName : c.path.EndsInName
  file : c.input.kind = .file → c.path = c.input.path
  directory : c.input.kind = .directory →
    ∃ names, c.path = c.input.path.below names ∧ names ≠ [] ∧ (¬ goesUp → Path.up ∉ names)

/-- What two files have in common that share a destination. -/
structure SharesDestination (cwd : Path) (keepStructure : Bool) (c d : Candidate) : Prop where
  name : c.path.name = d.path.name
  kind : c.input.kind = d.input.kind
  rootName : c.input.kind = .directory →
    ILDump.rootName cwd c.input.path = ILDump.rootName cwd d.input.path
  between : c.input.kind = .directory → keepStructure = true → c.between cwd = d.between cwd

/-! ### The components of a destination -/

theorem isComponent_suffixed {s : String} (h : '/' ∉ s.toList) :
    IsComponent (s ++ listingSuffix) :=
  isComponent_append h (by decide) (by decide)

theorem not_mem_rootName {p : Path} (hcwd : cwd.WellFormed) (hp : p.WellFormed) :
    '/' ∉ (rootName cwd p).toList := by
  have hparts := Path.wellFormed_absolute hcwd hp
  unfold rootName Path.name
  cases hlast : (p.absolute cwd).parts.getLast? with
  | none => simp
  | some s => exact (hparts s (List.mem_of_getLast? hlast)).no_separator

theorem Found.isOrdinaryName_name (h : c.Found goesUp) : IsOrdinaryName c.path.name :=
  h.endsInName.isOrdinaryName_name

/-- The components of a destination behind those of the output root. -/
def destinationParts (cwd : Path) (keepStructure : Bool) (c : Candidate) : List String :=
  (rootName cwd c.input.path ++ listingSuffix) ::
    match c.input.kind with
    | .file => [c.path.name ++ listingSuffix]
    | .directory =>
      (if keepStructure then (c.between cwd).parts else []) ++
        [c.path.name, c.path.name ++ listingSuffix]

theorem destination_eq (hcwd : cwd.WellFormed) (hinput : c.input.path.WellFormed)
    (hname : IsOrdinaryName c.path.name) :
    c.destination cwd outputRoot keepStructure =
      ⟨outputRoot.anchor, outputRoot.parts ++ c.destinationParts cwd keepStructure⟩ := by
  have hroot := isComponent_suffixed (not_mem_rootName hcwd hinput)
  have hlisting := isComponent_suffixed hname.no_separator
  unfold destination destinationParts inputDirectory
  rw [Path.child_of_isComponent hroot]
  cases c.input.kind with
  | file =>
    dsimp only
    rw [Path.child_of_isComponent hlisting]
    simp
  | directory =>
    cases keepStructure with
    | false =>
      simp only [Bool.false_eq_true, if_false]
      rw [Path.child_of_isComponent hname.toIsComponent, Path.child_of_isComponent hlisting]
      simp
    | true =>
      have hrelative : (c.between cwd).isAbsolute = false := rfl
      simp only [if_true, Path.join, hrelative, Bool.false_eq_true, if_false]
      rw [Path.child_of_isComponent hname.toIsComponent, Path.child_of_isComponent hlisting]
      simp

theorem Found.destination_eq (h : c.Found goesUp) (hcwd : cwd.WellFormed) :
    c.destination cwd outputRoot keepStructure =
      ⟨outputRoot.anchor, outputRoot.parts ++ c.destinationParts cwd keepStructure⟩ :=
  Candidate.destination_eq hcwd h.inputWellFormed h.isOrdinaryName_name

/-! ### When destinations are the same -/

theorem suffixed_inj {s s' : String} (h : s ++ listingSuffix = s' ++ listingSuffix) : s = s' := by
  have hlist := congrArg String.toList h
  rw [String.toList_append, String.toList_append] at hlist
  exact String.toList_inj.mp (List.append_cancel_right hlist)

theorem concat_concat_inj {α : Type} {xs ys : List α} {a b a' b' : α}
    (h : xs ++ [a, b] = ys ++ [a', b']) : xs = ys ∧ a = a' ∧ b = b' := by
  obtain ⟨hxs, htail⟩ := List.append_inj' h rfl
  simpa [hxs] using htail

/-- The name of a file input is the last component of its absolute path. -/
theorem Found.rootName_eq (h : c.Found goesUp) (hkind : c.input.kind = .file) :
    rootName cwd c.input.path = c.path.name := by
  rw [← h.file hkind, rootName, h.endsInName.name_absolute]

theorem between_ext (h : (c.between cwd).parts = (d.between cwd).parts) :
    c.between cwd = d.between cwd :=
  congrArg (Path.mk .relative) h

theorem destinationParts_eq_iff (hc : c.Found goesUp) (hd : d.Found goesUp) :
    c.destinationParts cwd keepStructure = d.destinationParts cwd keepStructure ↔
      SharesDestination cwd keepStructure c d := by
  unfold destinationParts
  constructor
  · intro h
    obtain ⟨hroot, htail⟩ := List.cons.inj h
    have hroot := suffixed_inj hroot
    cases hck : c.input.kind with
    | file =>
      cases hdk : d.input.kind with
      | file =>
        rw [hck, hdk] at htail
        have hname := suffixed_inj (List.cons.inj htail).1
        exact ⟨hname, by rw [hck, hdk], fun hk => by simp [hck] at hk,
          fun hk => by simp [hck] at hk⟩
      | directory =>
        rw [hck, hdk] at htail
        have hlength := congrArg List.length htail
        simp only [List.length_append, List.length_cons, List.length_nil] at hlength
        omega
    | directory =>
      cases hdk : d.input.kind with
      | file =>
        rw [hck, hdk] at htail
        have hlength := congrArg List.length htail
        simp only [List.length_append, List.length_cons, List.length_nil] at hlength
        omega
      | directory =>
        rw [hck, hdk] at htail
        obtain ⟨hbetween, hname, -⟩ := concat_concat_inj htail
        refine ⟨hname, by rw [hck, hdk], fun _ => hroot, fun _ hkeep => between_ext ?_⟩
        simpa [hkeep] using hbetween
  · intro h
    have hkind := h.kind
    cases hck : c.input.kind with
    | file =>
      rw [hck] at hkind
      rw [← hkind, hc.rootName_eq hck, hd.rootName_eq hkind.symm, h.name]
    | directory =>
      rw [hck] at hkind
      rw [← hkind, h.rootName hck, h.name]
      cases hkeep : keepStructure with
      | false => rfl
      | true => rw [h.between hck hkeep]

/-- **When two files share a destination.** -/
theorem destination_eq_iff (hcwd : cwd.WellFormed) (hc : c.Found goesUp) (hd : d.Found goesUp) :
    c.destination cwd outputRoot keepStructure = d.destination cwd outputRoot keepStructure ↔
      SharesDestination cwd keepStructure c d := by
  rw [hc.destination_eq hcwd, hd.destination_eq hcwd, ← destinationParts_eq_iff hc hd]
  simp

/-- Files below one directory are told apart by where they are in it. -/
theorem absolute_eq_of_between_eq (hcwd : cwd.isAbsolute = true) (hc : c.Found goesUp)
    (hd : d.Found goesUp) (hckind : c.input.kind = .directory) (hdkind : d.input.kind = .directory)
    (hinput : c.input.path.absolute cwd = d.input.path.absolute cwd)
    (hname : c.path.name = d.path.name) (hbetween : c.between cwd = d.between cwd) :
    c.path.absolute cwd = d.path.absolute cwd := by
  obtain ⟨cparts, s, hcparts, hs⟩ := hc.endsInName
  obtain ⟨dparts, s', hdparts, hs'⟩ := hd.endsInName
  obtain ⟨cnames, hcnames, -⟩ := hc.directory hckind
  obtain ⟨dnames, hdnames, -⟩ := hd.directory hdkind
  have hsame : s = s' := by
    rw [Path.name, Path.name, hcparts, hdparts, List.getLast?_concat, List.getLast?_concat] at hname
    exact hname
  have hparents : (c.path.parent.absolute cwd).parts = (d.path.parent.absolute cwd).parts := by
    unfold between at hbetween
    rw [hinput] at hbetween
    exact Path.relativeTo_inj (Path.up_not_mem_absolute hcwd _) (Path.up_not_mem_absolute hcwd _)
      hbetween
  have hanchors : (c.path.absolute cwd).anchor = (d.path.absolute cwd).anchor := by
    have hcanchor : (c.path.absolute cwd).anchor = (c.input.path.absolute cwd).anchor :=
      Path.anchor_absolute_eq (by rw [hcnames]; rfl)
    have hdanchor : (d.path.absolute cwd).anchor = (d.input.path.absolute cwd).anchor :=
      Path.anchor_absolute_eq (by rw [hdnames]; rfl)
    rw [hcanchor, hdanchor, hinput]
  have hparts : (c.path.absolute cwd).parts = (d.path.absolute cwd).parts := by
    rw [(Path.absolute_of_name hcparts hs.ne_up).1, (Path.absolute_of_name hdparts hs'.ne_up).1,
      hparents, hsame]
  cases hca : c.path.absolute cwd
  cases hda : d.path.absolute cwd
  simp_all

end Candidate

/-! ### Files found in a workspace -/

namespace Pipeline

variable {ρ : Type} {isAssembly : Path → Work (ρ × Workspace) Bool}
  {report : String → Work (ρ × Workspace) Unit} {plan : Plan} {here : Place}
  {inputs : List Path}

/-- That the workspace beside some other state is a sound one. -/
abbrev SoundSecond (here : Place) (st : ρ × Workspace) : Prop :=
  st.2.Sound here

/-- Whether the pattern of a plan goes up. -/
def Plan.GoesUp (plan : Plan) : Prop :=
  Path.up ∈ (Path.ofString plan.pattern).parts

theorem wellFormed_destination {goesUp : Prop} {c : Candidate} (hcwd : plan.cwd.WellFormed)
    (houtput : plan.outputRoot.WellFormed) (hc : c.Found goesUp) :
    (plan.destination c).WellFormed := by
  have hname := hc.isOrdinaryName_name
  have hbetween : (c.between plan.cwd).WellFormed := by
    intro s hs
    rcases List.mem_append.mp hs with hs | hs
    · rw [List.eq_of_mem_replicate hs]
      exact isComponent_up
    · have hmem := Path.mem_of_mem_resolveParts (List.mem_of_mem_drop hs)
      rw [Path.parts_join, List.mem_append] at hmem
      rcases hmem with hmem | hmem
      · split at hmem
        · cases hmem
        · exact hcwd s hmem
      · exact hc.wellFormed s (List.dropLast_subset _ hmem)
  intro s hs
  rw [Plan.destination, hc.destination_eq hcwd] at hs
  rcases List.mem_append.mp hs with hs | hs
  · exact houtput s hs
  · unfold Candidate.destinationParts at hs
    rcases List.mem_cons.mp hs with rfl | hs
    · exact Candidate.isComponent_suffixed (Candidate.not_mem_rootName hcwd hc.inputWellFormed)
    · split at hs
      · rw [List.mem_singleton.mp hs]
        exact Candidate.isComponent_suffixed hname.no_separator
      · rcases List.mem_append.mp hs with hs | hs
        · split at hs
          · exact hbetween s hs
          · cases hs
        · rcases List.mem_cons.mp hs with rfl | hs
          · exact hname.toIsComponent
          · rw [List.mem_singleton.mp hs]
            exact Candidate.isComponent_suffixed hname.no_separator

theorem endsInName_of_isFile {w : Workspace} (hw : w.Sound here) {p : Path} (hp : p.WellFormed)
    (hfile : w.tree.isFile w.cwd p = true) : p.EndsInName := by
  have hcwd : w.tree.node? w.cwd = some .directory := hw.cwd_eq ▸ hw.here
  obtain ⟨parts, s, hparts, hs⟩ := hw.proper.exists_name hcwd hfile
  exact ⟨parts, s, hparts, hp s (by simp [hparts]), hs⟩

/-- What is found in a sound workspace is well-formed, and creating directories for it leaves the
    workspace sound. -/
theorem workspaceWith_sustains (hcwd : plan.cwd.WellFormed) (houtput : plan.outputRoot.WellFormed)
    (hinputs : ∀ path ∈ inputs, path.WellFormed)
    (hassembly : ∀ path, Keeps (SoundSecond here) (isAssembly path))
    (hreport : ∀ line, Keeps (SoundSecond here) (report line)) :
    (workspaceWith isAssembly report).Sustain plan inputs (SoundSecond here)
      (Candidate.Found · plan.GoesUp) where
  probe path hpath st hst := by
    rw [probe_eq]
    cases hkindAt : kindAt st.2.tree st.2.cwd path with
    | error f => exact ⟨hst, nofun⟩
    | ok found? =>
    refine ⟨hst, fun kind? hkind hfile => ?_⟩
    obtain rfl : found? = kind? := Except.ok.inj hkind
    rw [hfile] at hkindAt
    have hisFile : st.2.tree.isFile st.2.cwd path = true := kindAt_eq_some_iff.mp hkindAt
    exact {
      inputWellFormed := hinputs path hpath
      wellFormed := hinputs path hpath
      endsInName := endsInName_of_isFile hst (hinputs path hpath) hisFile
      file := fun _ => rfl
      directory := fun hkind => by cases hkind }
  search path hpath st hst := by
    rw [search_eq]
    unfold foundBelow
    cases hpattern : SearchPattern.ofString plan.pattern with
    | error fault =>
      refine ⟨hst, fun found hfound => ?_⟩
      cases hfound
    | ok pattern =>
      refine ⟨hst, fun found hfound q hq => ?_⟩
      obtain rfl := Except.ok.inj hfound
      obtain ⟨-, hdirectory, hselect, hfile⟩ := Tree.mem_filesBelow.mp hq
      -- names of the tree do not go up, and names of the pattern may only if it does
      have huses : ∀ part ∈ .anyDepth :: pattern.parts,
          part.Uses fun s => IsComponent s ∧ (¬ plan.GoesUp → s ≠ Path.up) := by
        intro part hpart
        rcases List.mem_cons.mp hpart with rfl | hpart
        · trivial
        · refine SearchPattern.uses hpattern (fun s hs => ⟨?_, ?_⟩) part hpart
          · exact Path.wellFormed_ofString _ s hs
          · rintro hgoesUp rfl
            exact hgoesUp hs
      have hnamed : st.2.tree.Named fun s => IsComponent s ∧ (¬ plan.GoesUp → s ≠ Path.up) :=
        fun e he s hs => ⟨hst.named e he s hs, fun _ heq => (hst.proper.room e he).noUp (heq ▸ hs)⟩
      obtain ⟨names, rfl, hnames⟩ := Tree.select_below hnamed huses hselect
      have hwellFormed : (path.below names).WellFormed := fun s hs =>
        (List.mem_append.mp hs).elim (hinputs path hpath s) fun hs => (hnames s hs).1
      have hne : names ≠ [] := by
        rintro rfl
        rw [Path.below_nil] at hfile
        exact Tree.not_isDirectory_of_isFile hfile hdirectory
      exact {
        inputWellFormed := hinputs path hpath
        wellFormed := hwellFormed
        endsInName := endsInName_of_isFile hst hwellFormed hfile
        file := fun hkind => by cases hkind
        directory := fun _ =>
          ⟨names, rfl, hne, fun hgoesUp hup => (hnames _ hup).2 hgoesUp rfl⟩ }
  isAssembly := hassembly
  makeDirectories c hc := by
    refine Ensures.of_keeps fun st hst => ?_
    obtain ⟨hcwdEq, hproper, hnamed, hhere⟩ := hst
    have hparent : ∀ s ∈ (plan.destination c).parent.parts, IsComponent s := fun s hs =>
      wellFormed_destination hcwd houtput hc s (List.dropLast_subset _ hs)
    have hnames : ∀ s ∈ here, IsComponent s := hnamed.of_node? hhere
    rw [stateAfter_makeDirectories]
    have hextended := (withDirectoriesAt_extended hcwdEq hproper hhere
      (plan.destination c).parent).1
    refine ⟨hcwdEq, hextended.proper, ?_, hextended.here⟩
    exact hnamed.makeDirectories (by rw [hcwdEq]; exact hnames) hparent
  log level text := Ensures.of_keeps fun st hst => ⟨hst.cwd_eq, hst.proper, hst.named, hst.here⟩
  report := hreport

/-- Work of a stage that leaves the workspace sound, if it is called with paths that can be
    written down. -/
def Tidy (here : Place) (work : StageWork (ρ × Workspace)) : Prop :=
  ∀ source destination : Path, source.WellFormed → destination.WellFormed →
    Keeps (SoundSecond here) (work source destination)

theorem candidates_of_run {stages : List (Stage (ρ × Workspace))}
    (hplan : plan.cwd = ⟨.root, here⟩) (houtput : plan.outputRoot.WellFormed)
    (hinputs : ∀ path ∈ inputs, path.WellFormed)
    (hassembly : ∀ path, Keeps (SoundSecond here) (isAssembly path))
    (hreport : ∀ line, Keeps (SoundSecond here) (report line))
    (hstages : ∀ stage ∈ stages, Ensures (SoundSecond here) (Tidy here) stage.prepare)
    {start final : ρ × Workspace} (hstart : start.2.Sound here) {records : List Record}
    (hrun : (workspaceWith isAssembly report).run plan stages inputs start = .ok records final) :
    plan.cwd.WellFormed ∧ ∃ cs : List Candidate, records = cs.map plan.record ∧
      ∀ c ∈ cs, c.input.path ∈ inputs ∧ c.Found plan.GoesUp := by
  have hcwd : plan.cwd.WellFormed := by
    rw [hplan]
    exact hstart.named.of_node? hstart.here
  have hsustain := workspaceWith_sustains hcwd houtput hinputs hassembly hreport
  have hworks : ∀ stage ∈ stages, Ensures (SoundSecond here)
      (WorkKeeps plan (SoundSecond here) (Candidate.Found · plan.GoesUp)) stage.prepare := by
    refine fun stage hstage => (hstages stage hstage).mono fun work hwork c hc => ?_
    exact hwork c.path _ hc.wellFormed (wellFormed_destination hcwd houtput hc)
  exact ⟨hcwd, (hsustain.run hworks start hstart).2 records (by rw [hrun]; rfl)⟩

/-- **When records share a destination.** Two records of a run whose sources have different
    absolute paths have the same destination exactly if both sources are file inputs of one name,
    or files of one name below directory inputs of one name that also lie at the same place below
    these if the structure is kept. With the structure kept, files below one directory never share
    a destination. -/
theorem destination_eq_iff_of_run {stages : List (Stage (ρ × Workspace))}
    (hplan : plan.cwd = ⟨.root, here⟩) (houtput : plan.outputRoot.WellFormed)
    (hinputs : ∀ path ∈ inputs, path.WellFormed)
    (hassembly : ∀ path, Keeps (SoundSecond here) (isAssembly path))
    (hreport : ∀ line, Keeps (SoundSecond here) (report line))
    (hstages : ∀ stage ∈ stages, Ensures (SoundSecond here) (Tidy here) stage.prepare)
    {start final : ρ × Workspace} (hstart : start.2.Sound here) {records : List Record}
    (hrun : (workspaceWith isAssembly report).run plan stages inputs start = .ok records final) :
    ∃ cs : List Candidate, records = cs.map plan.record ∧
      (∀ c ∈ cs, c.input.path ∈ inputs ∧
        (c.input.kind = .file → c.path = c.input.path) ∧
        (c.input.kind = .directory → ∃ names, c.path = c.input.path.below names)) ∧
      ∀ c ∈ cs, ∀ d ∈ cs, c.path.absolute plan.cwd ≠ d.path.absolute plan.cwd →
        ((plan.record c).destination = (plan.record d).destination ↔
          Candidate.SharesDestination plan.cwd plan.keepStructure c d) ∧
        (plan.keepStructure = true → c.input.kind = .directory → d.input.kind = .directory →
          c.input.path.absolute plan.cwd = d.input.path.absolute plan.cwd →
          (plan.record c).destination ≠ (plan.record d).destination) := by
  have habsolute : plan.cwd.isAbsolute = true := by
    rw [hplan]
    rfl
  obtain ⟨hcwd, cs, hrecords, hcs⟩ :=
    candidates_of_run hplan houtput hinputs hassembly hreport hstages hstart hrun
  refine ⟨cs, hrecords, fun c hc => ?_, fun c hc d hd hne => ?_⟩
  · obtain ⟨hinput, hfound⟩ := hcs c hc
    refine ⟨hinput, hfound.file, fun hkind => ?_⟩
    obtain ⟨names, hnames, -⟩ := hfound.directory hkind
    exact ⟨names, hnames⟩
  · have hcfound := (hcs c hc).2
    have hdfound := (hcs d hd).2
    have hiff : (plan.record c).destination = (plan.record d).destination ↔
        Candidate.SharesDestination plan.cwd plan.keepStructure c d :=
      Candidate.destination_eq_iff hcwd hcfound hdfound
    refine ⟨hiff, fun hkeep hckind hdkind hinput heq => hne ?_⟩
    obtain ⟨hname, -, -, hbetween⟩ := hiff.mp heq
    exact Candidate.absolute_eq_of_between_eq habsolute hcfound hdfound hckind hdkind hinput hname
      (hbetween hckind hkeep)

/-! ### Two files of one name -/

/-- A stage that copies files. -/
def copying : Stage Workspace where
  name := "copy"
  rank := 10
  prepare := return fun source destination => do
    match ← Session.read source with
    | .error e => throw (.disk e source.text)
    | .ok content =>
      match ← Session.write destination content with
      | some e => throw (.disk e destination.text)
      | none => return

theorem tidy_copying :
    Ensures (SoundSecond here) (Tidy here) (copying.onSecond : Stage (ρ × Workspace)).prepare := by
  have hcopy : Ensures (Workspace.Sound here)
      (fun work => ∀ source destination : Path, destination.WellFormed →
        Keeps (Workspace.Sound here) (work source destination)) copying.prepare := by
    refine .pure fun source destination hdestination => ?_
    refine (Ensures.read source).bind fun content _ => ?_
    cases content with
    | error e => exact .throw _
    | ok content =>
      refine (Ensures.write hdestination content).bind fun error? _ => ?_
      cases error? with
      | none => exact .pure trivial
      | some e => exact .throw _
  refine (Ensures.onSecond_prepare hcopy).mono ?_
  rintro work ⟨inner, hinner, rfl⟩ source destination - hdestination
  exact (hinner source destination hdestination).onSecond

/-- Two directories with a file of the same name in each. -/
def twinFiles : Workspace :=
  .ofTree (.ofEntries [(["a"], .directory), (["a", "App.dll"], .file [1] false),
    (["b"], .directory), (["b", "App.dll"], .file [2] false)]) [] []

def acceptAll : Path → Work (Unit × Workspace) Bool :=
  fun _ => return true

def reportNothing : String → Work (Unit × Workspace) Unit :=
  fun _ => return

def twinPlan : Plan where
  cwd := ⟨.root, []⟩
  outputRoot := .ofString "out"
  keepStructure := true
  pattern := "*"

theorem twinFiles_sound : twinFiles.Sound [] where
  cwd_eq := rfl
  proper := by decide
  named := by decide
  here := rfl

/-- The law on a run on two files of one name. -/
theorem destination_eq_iff_of_run_twins :
    ∃ records final, (workspaceWith acceptAll reportNothing).run twinPlan [copying.onSecond]
        [.ofString "a/App.dll", .ofString "b/App.dll"] ((), twinFiles) = .ok records final ∧
      records.length = 2 ∧
      ∃ cs : List Candidate, records = cs.map twinPlan.record ∧
        ∀ c ∈ cs, ∀ d ∈ cs, c.path.absolute twinPlan.cwd ≠ d.path.absolute twinPlan.cwd →
          ((twinPlan.record c).destination = (twinPlan.record d).destination ↔
            Candidate.SharesDestination twinPlan.cwd true c d) := by
  have hlength : (match (workspaceWith acceptAll reportNothing).run twinPlan [copying.onSecond]
      [.ofString "a/App.dll", .ofString "b/App.dll"] ((), twinFiles) with
    | .ok records _ => records.length
    | .error _ _ => 0) = 2 := by
    decide +kernel
  split at hlength
  · rename_i records final hrun
    have hinputs : ∀ path ∈ [Path.ofString "a/App.dll", .ofString "b/App.dll"],
        path.WellFormed := by
      simp [Path.wellFormed_ofString]
    have hstages : ∀ stage ∈ [(copying.onSecond : Stage (Unit × Workspace))],
        Ensures (SoundSecond []) (Tidy []) stage.prepare := by
      intro stage hstage
      rw [List.mem_singleton.mp hstage]
      exact tidy_copying
    obtain ⟨cs, hrecords, -, hcs⟩ := destination_eq_iff_of_run rfl (Path.wellFormed_ofString _)
      hinputs (fun _ => .pure trivial) (fun _ => .pure trivial) hstages twinFiles_sound hrun
    exact ⟨records, final, hrun, hlength, cs, hrecords, fun c hc d hd hne => (hcs c hc d hd hne).1⟩
  · cases hlength

/-- The records of a run, if it does not end early, and the tree it leaves. -/
def recordsAndTree? (result : EStateM.Result Failure (Unit × Workspace) (List Record)) :
    Option (List Record × List (Place × Node)) :=
  match result with
  | .ok records final => some (records, final.2.tree.entries)
  | .error _ _ => none

/-- Both files are recorded with the same destination, which holds the second one alone. -/
theorem twin_files_collide :
    recordsAndTree? ((workspaceWith acceptAll reportNothing).run twinPlan [copying.onSecond]
      [.ofString "a/App.dll", .ofString "b/App.dll"] ((), twinFiles)) =
    some ([⟨.ofString "a/App.dll", .ofString "out/App.dll.il/App.dll.il"⟩,
        ⟨.ofString "b/App.dll", .ofString "out/App.dll.il/App.dll.il"⟩],
      twinFiles.tree.entries ++ [(["out"], .directory), (["out", "App.dll.il"], .directory),
        (["out", "App.dll.il", "App.dll.il"], .file [2] false)]) ∧
    (Path.ofString "a/App.dll").absolute twinPlan.cwd ≠
      (Path.ofString "b/App.dll").absolute twinPlan.cwd := by
  decide +kernel

end Pipeline

end ILDump
