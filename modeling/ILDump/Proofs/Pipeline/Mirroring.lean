import ILDump.Proofs.Pipeline.Destinations
import Mathlib.Data.Set.Defs

/-!
# The output mirrors the input

With the structure kept, the destinations below one directory input are its tree once more:
the components that lead from the input to a file lead from the directory of the input below
the output root to a directory for that file, which holds the listing. So the source can be
read back from its destination.

A destination that lies below another one ends behind all components of the other, the name
of the listing included. The components of the sources are then prefixes of each other too.
Files of a file system never lie below each other, hence no listing has to be a directory
for another.

A search whose pattern does not go up only finds what lies below its start. All destinations of
such a run lead down from the output root, so different ones are different files.
-/

namespace ILDump

namespace Path

theorem commonLength_append (xs ys : List String) : commonLength xs (xs ++ ys) = xs.length := by
  induction xs with
  | nil => cases ys <;> rfl
  | cons x xs ih => simp [commonLength, ih]

/-- The way to a path from a place above it. -/
theorem relativeTo_below {p start : Path} {names : List String}
    (h : p.parts = start.parts ++ names) : p.relativeTo start = ⟨.relative, names⟩ := by
  simp [relativeTo, h, commonLength_append]

/-- What leads down from a path leads down from its absolute path. -/
theorem absolute_below {cwd p : Path} {names : List String} (h : up ∉ names) :
    (p.below names).absolute cwd = (p.absolute cwd).below names := by
  induction names using List.reverseRecOn with
  | nil => rw [below_nil, below_nil]
  | append_singleton names s ih =>
    have hs : s ≠ up := fun heq => h (by simp [heq])
    have hparts : (p.below (names ++ [s])).parts = (p.below names).parts ++ [s] := by
      simp [below]
    have hparent : (p.below (names ++ [s])).parent = p.below names := by
      rw [parent, hparts, List.dropLast_concat]
      rfl
    obtain ⟨hresolved, hanchor⟩ :
        ((p.below (names ++ [s])).absolute cwd).parts = _ ∧ _ := absolute_of_name hparts hs
    rw [hparent, ih fun hup => h (List.mem_append_left _ hup)] at hresolved hanchor
    cases hpath : (p.below (names ++ [s])).absolute cwd
    rw [hpath] at hresolved hanchor
    simp_all [below]

theorem below_inj {p : Path} {names names' : List String} :
    p.below names = p.below names' ↔ names = names' := by
  simp [below]

/-- That a path leads through another one to something further. -/
def IsAbove (p q : Path) : Prop :=
  ∃ names, names ≠ [] ∧ q = p.below names

instance (p q : Path) : Decidable (p.IsAbove q) :=
  decidable_of_iff (p.anchor = q.anchor ∧ p.parts <+: q.parts ∧ p.parts ≠ q.parts) <| by
    constructor
    · rintro ⟨hanchor, ⟨names, hnames⟩, hne⟩
      refine ⟨names, ?_, ?_⟩
      · rintro rfl
        exact hne (by rw [← hnames, List.append_nil])
      · rw [below, hanchor, hnames]
    · rintro ⟨names, hne, rfl⟩
      exact ⟨rfl, ⟨names, rfl⟩, by simpa [below] using hne⟩

end Path

/-- Where the listing of the file goes that these components lead to from a directory input. -/
def mirror (cwd outputRoot root : Path) (names : List String) : Path :=
  outputRoot.below ((rootName cwd root ++ listingSuffix) ::
    (names ++ [names.getLast?.getD "" ++ listingSuffix]))

/-- The components that lead to the source of a listing, read off its destination. -/
def sourceNames (outputRoot destination : Path) : List String :=
  (destination.parts.drop (outputRoot.parts.length + 1)).dropLast

namespace Candidate

/-- A file below a directory input: these components, at least one, lead to it from there once
    both paths are absolute. -/
structure LiesBelow (cwd root : Path) (c : Candidate) (names : List String) : Prop where
  input : c.input = ⟨root, .directory⟩
  endsInName : c.path.EndsInName
  ne_nil : names ≠ []
  absolute_eq : c.path.absolute cwd = (root.absolute cwd).below names

variable {cwd outputRoot root : Path} {c d : Candidate} {names names' : List String}

/-- The last of the components is the name of the file, and the others are what is kept of the
    structure. -/
theorem LiesBelow.eq_concat (h : c.LiesBelow cwd root names) :
    names = (c.between cwd).parts ++ [c.path.name] := by
  obtain ⟨parts, s, hparts, hs⟩ := h.endsInName
  have hname : c.path.name = s := by
    rw [Path.name, hparts, List.getLast?_concat]
    rfl
  rcases List.eq_nil_or_concat names with hnil | ⟨above, last, hnames⟩
  · exact absurd hnil h.ne_nil
  · rw [List.concat_eq_append] at hnames
    have hpath : (c.path.absolute cwd).parts = (root.absolute cwd).parts ++ above ++ [last] := by
      rw [h.absolute_eq, hnames, List.append_assoc]
      rfl
    rw [(Path.absolute_of_name hparts hs.ne_up).1] at hpath
    obtain ⟨hparent, hlast⟩ := List.append_inj' hpath rfl
    have hbetween : c.between cwd = ⟨.relative, above⟩ := by
      rw [between, h.input]
      exact Path.relativeTo_below hparent
    rw [hbetween, hname, hnames, List.singleton_inj.mp hlast]

theorem LiesBelow.destination_eq (h : c.LiesBelow cwd root names) (hcwd : cwd.WellFormed)
    (hroot : root.WellFormed) :
    c.destination cwd outputRoot true = mirror cwd outputRoot root names := by
  have hinput : c.input.path.WellFormed := by
    rw [h.input]
    exact hroot
  rw [Candidate.destination_eq hcwd hinput h.endsInName.isOrdinaryName_name, destinationParts,
    h.input, mirror, Path.below, h.eq_concat]
  simp

end Candidate

/-! ### Destinations below one directory -/

section

variable {cwd outputRoot root : Path} {names names' : List String}

theorem sourceNames_mirror :
    sourceNames outputRoot (mirror cwd outputRoot root names) = names := by
  have hdrop : (mirror cwd outputRoot root names).parts.drop (outputRoot.parts.length + 1) =
      names ++ [names.getLast?.getD "" ++ listingSuffix] := by
    simp [mirror, Path.below, ← List.drop_drop]
  rw [sourceNames, hdrop, List.dropLast_concat]

theorem mirror_inj (h : mirror cwd outputRoot root names = mirror cwd outputRoot root names') :
    names = names' := by
  have hread := congrArg (sourceNames outputRoot) h
  rwa [sourceNames_mirror, sourceNames_mirror] at hread

/-- All components of the destination above are among those that lead to the source of the one
    below, which has a component more. -/
theorem prefix_of_mirror_isAbove
    (h : (mirror cwd outputRoot root names).IsAbove (mirror cwd outputRoot root names')) :
    ∃ more, more ≠ [] ∧ names' = names ++ more := by
  obtain ⟨more, hmore, heq⟩ := h
  rw [mirror, mirror, Path.below_below, Path.below_inj, List.cons_append, List.cons.injEq] at heq
  obtain ⟨init, last, rfl⟩ : ∃ init last, more = init ++ [last] := by
    simpa using List.eq_nil_or_concat more |>.resolve_left hmore
  have hsplit : names' ++ [names'.getLast?.getD "" ++ listingSuffix] =
      (names ++ ((names.getLast?.getD "" ++ listingSuffix) :: init)) ++ [last] := by
    simpa using heq.2
  exact ⟨_, by simp, (List.append_inj' hsplit rfl).1⟩

theorem up_ne_suffixed (s : String) : Path.up ≠ s ++ listingSuffix := by
  intro h
  have hl := congrArg (fun t => t.toList.length) h
  have hup : Path.up.toList.length = 2 := rfl
  have hsuffix : listingSuffix.toList.length = 3 := rfl
  simp only [String.toList_append, List.length_append, hup, hsuffix] at hl
  omega

theorem up_not_mem_mirror (hnames : Path.up ∉ names) :
    ∃ rest, mirror cwd outputRoot root names = outputRoot.below rest ∧ Path.up ∉ rest :=
  ⟨_, rfl, by simp [up_ne_suffixed, hnames]⟩

/-- **The output mirrors the input.** With the structure kept, the destinations of files below
    one directory input repeat the components that lead to them, without a component that goes
    up; they are the same only for one file; and unless one of the files lies below another, none
    of the destinations lies below another. -/
theorem destinations_mirror (hcwd : cwd.isAbsolute = true) (hwellFormed : cwd.WellFormed)
    (hroot : root.WellFormed) {files : Set Candidate} {names : Candidate → List String}
    (hfiles : ∀ c ∈ files, c.LiesBelow cwd root (names c)) :
    (∀ c ∈ files,
      c.destination cwd outputRoot true = mirror cwd outputRoot root (names c) ∧
      (∃ rest, c.destination cwd outputRoot true = outputRoot.below rest ∧ Path.up ∉ rest) ∧
      sourceNames outputRoot (c.destination cwd outputRoot true) = names c) ∧
    (∀ c ∈ files, ∀ d ∈ files,
      (c.destination cwd outputRoot true = d.destination cwd outputRoot true ↔
        c.path.absolute cwd = d.path.absolute cwd)) ∧
    ((∀ c ∈ files, ∀ d ∈ files, ¬ (c.path.absolute cwd).IsAbove (d.path.absolute cwd)) →
      ∀ c ∈ files, ∀ d ∈ files,
        ¬ (c.destination cwd outputRoot true).IsAbove (d.destination cwd outputRoot true)) := by
  have hmirror : ∀ c ∈ files,
      c.destination cwd outputRoot true = mirror cwd outputRoot root (names c) :=
    fun c hc => (hfiles c hc).destination_eq hwellFormed hroot
  refine ⟨fun c hc => ⟨hmirror c hc, ?_, ?_⟩, fun c hc d hd => ⟨fun h => ?_, fun h => ?_⟩,
    fun hfree c hc d hd habove => ?_⟩
  · rw [hmirror c hc]
    refine up_not_mem_mirror fun hup => Path.up_not_mem_absolute hcwd c.path ?_
    rw [(hfiles c hc).absolute_eq]
    exact List.mem_append_right _ hup
  · rw [hmirror c hc, sourceNames_mirror]
  · rw [hmirror c hc, hmirror d hd] at h
    rw [(hfiles c hc).absolute_eq, (hfiles d hd).absolute_eq, mirror_inj h]
  · rw [(hfiles c hc).absolute_eq, (hfiles d hd).absolute_eq, Path.below_inj] at h
    rw [hmirror c hc, hmirror d hd, h]
  · rw [hmirror c hc, hmirror d hd] at habove
    obtain ⟨more, hmore, hnames⟩ := prefix_of_mirror_isAbove habove
    refine hfree c hc d hd ⟨more, hmore, ?_⟩
    rw [(hfiles c hc).absolute_eq, (hfiles d hd).absolute_eq, hnames, Path.below_below]

end

/-- Two files of one name below one directory, at different depths. -/
def twoDepths : Set Candidate :=
  {⟨.ofString "lib/App.dll", ⟨.ofString "lib", .directory⟩⟩,
    ⟨.ofString "lib/net/App.dll", ⟨.ofString "lib", .directory⟩⟩}

theorem destinations_mirror_twoDepths :
    let cwd : Path := ⟨.root, ["work"]⟩
    (∀ c ∈ twoDepths, c.destination cwd (.ofString "out") true =
        mirror cwd (.ofString "out") (.ofString "lib") (c.path.parts.drop 1)) ∧
      mirror cwd (.ofString "out") (.ofString "lib") ["net", "App.dll"] =
        .ofString "out/lib.il/net/App.dll/App.dll.il" ∧
      ∀ c ∈ twoDepths, ∀ d ∈ twoDepths,
        ¬ (c.destination cwd (.ofString "out") true).IsAbove
          (d.destination cwd (.ofString "out") true) := by
  have hfiles : ∀ c ∈ twoDepths,
      c.LiesBelow ⟨.root, ["work"]⟩ (.ofString "lib") (c.path.parts.drop 1) := by
    rintro c (rfl | rfl)
    · exact ⟨rfl, ⟨["lib"], "App.dll", by decide, by decide, by decide⟩, by decide, by decide⟩
    · exact ⟨rfl, ⟨["lib", "net"], "App.dll", by decide, by decide, by decide⟩, by decide,
        by decide⟩
  have hwellFormed : (⟨.root, ["work"]⟩ : Path).WellFormed := by
    intro s hs
    rw [List.mem_singleton.mp hs]
    decide
  have hlaw := @destinations_mirror ⟨.root, ["work"]⟩ (.ofString "out") (.ofString "lib") rfl
    hwellFormed (Path.wellFormed_ofString "lib") twoDepths _ hfiles
  refine ⟨fun c hc => (hlaw.1 c hc).1, by decide, hlaw.2.2 ?_⟩
  rintro c (rfl | rfl) d (rfl | rfl)
  · decide
  · decide
  · decide
  · decide

/-! ### Destinations of a run -/

namespace Candidate

variable {cwd outputRoot : Path} {keepStructure : Bool} {goesUp : Prop} {c d : Candidate}

/-- A search that does not go up finds what lies below its start. -/
theorem Found.liesBelow (h : c.Found goesUp) (hgoesUp : ¬ goesUp)
    (hkind : c.input.kind = .directory) (cwd : Path) :
    ∃ names, c.LiesBelow cwd c.input.path names ∧ Path.up ∉ names := by
  obtain ⟨names, hpath, hne, hup⟩ := h.directory hkind
  refine ⟨names, ⟨?_, h.endsInName, hne, ?_⟩, hup hgoesUp⟩
  · cases hinput : c.input
    rw [hinput] at hkind
    simp_all
  · rw [hpath, Path.absolute_below (hup hgoesUp)]

/-- So its destination leads down from the output root. -/
theorem Found.up_not_mem_destinationParts (h : c.Found goesUp) (hgoesUp : ¬ goesUp) :
    Path.up ∉ c.destinationParts cwd keepStructure := by
  have hname : Path.up ≠ c.path.name := h.isOrdinaryName_name.ne_up.symm
  unfold destinationParts
  cases hkind : c.input.kind with
  | file => simp [up_ne_suffixed]
  | directory =>
    obtain ⟨names, hbelow, hup⟩ := h.liesBelow hgoesUp hkind cwd
    rw [hbelow.eq_concat] at hup
    cases keepStructure <;> simp_all [up_ne_suffixed]

theorem Found.destination_absolute (h : c.Found goesUp) (hgoesUp : ¬ goesUp)
    (hcwd : cwd.WellFormed) :
    (c.destination cwd outputRoot keepStructure).absolute cwd =
      (outputRoot.absolute cwd).below (c.destinationParts cwd keepStructure) := by
  rw [h.destination_eq hcwd, ← Path.absolute_below (h.up_not_mem_destinationParts hgoesUp)]
  rfl

end Candidate

namespace Pipeline

variable {ρ : Type} {isAssembly : Path → Work (ρ × Workspace) Bool}
  {report : String → Work (ρ × Workspace) Unit} {plan : Plan} {here : Place}
  {inputs : List Path}

/-- **No listing replaces another.** If the pattern of the plan does not go up, records of a run
    with different destinations have their listings in different files. -/
theorem destination_eq_of_place_eq_of_run {stages : List (Stage (ρ × Workspace))}
    (hplan : plan.cwd = ⟨.root, here⟩) (houtput : plan.outputRoot.WellFormed)
    (hinputs : ∀ path ∈ inputs, path.WellFormed)
    (hassembly : ∀ path, Keeps (SoundSecond here) (isAssembly path))
    (hreport : ∀ line, Keeps (SoundSecond here) (report line))
    (hstages : ∀ stage ∈ stages, Ensures (SoundSecond here) (Tidy here) stage.prepare)
    {start final : ρ × Workspace} (hstart : start.2.Sound here) {records : List Record}
    (hrun : (workspaceWith isAssembly report).run plan stages inputs start = .ok records final)
    (hpattern : ¬ plan.GoesUp) {r r' : Record} (hr : r ∈ records) (hr' : r' ∈ records)
    (hplace : r.destination.place here = r'.destination.place here) :
    r.destination = r'.destination := by
  obtain ⟨hcwd, cs, rfl, hcs⟩ :=
    candidates_of_run hplan houtput hinputs hassembly hreport hstages hstart hrun
  obtain ⟨c, hc, rfl⟩ := List.mem_map.mp hr
  obtain ⟨d, hd, rfl⟩ := List.mem_map.mp hr'
  have hcfound := (hcs c hc).2
  have hdfound := (hcs d hd).2
  have hparts : ((plan.destination c).absolute plan.cwd).parts =
      ((plan.destination d).absolute plan.cwd).parts := by
    rw [hplan]
    exact hplace
  change plan.destination c = plan.destination d
  unfold Plan.destination at hparts ⊢
  rw [hcfound.destination_absolute hpattern hcwd,
    hdfound.destination_absolute hpattern hcwd] at hparts
  rw [hcfound.destination_eq hcwd, hdfound.destination_eq hcwd,
    List.append_cancel_left hparts]

end Pipeline

end ILDump
