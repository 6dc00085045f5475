import ILDump.Proofs.Disassembler.Atomicity
import ILDump.Proofs.Listing.Blocks

/-!
# The check and the loader agree

Files are checked before they are disassembled, by code of its own: the check opens a file and
answers with a verdict, the loader opens it again and fails if it cannot go on. Whatever opens
the files, the two ask for the same: an executable, a header for managed code, tables. So a file
that was accepted cannot fail at this, only at a signature or at code further in; and its tables
name an assembly, whose manifest every listing of it has.
-/

namespace ILDump

/-! ### The manifest in the text of a listing -/

namespace Step

theorem render_eq_linesAt (steps : List Step) :
    render steps = String.join ((linesAt 0 steps).map fun l =>
      Output.place "\t" l.1 l.2 ++ "\n") := by
  rw [render, Output.text, lines_run]
  simp [Output.empty, Function.comp_def]

/-- What follows a block starts at the left again. -/
theorem render_append {allowed : String → Prop} {xs : List Step}
    (hx : Listing.Block allowed xs) (ys : List Step) :
    render (xs ++ ys) = render xs ++ render ys := by
  rw [render_eq_linesAt, render_eq_linesAt, render_eq_linesAt, hx.linesAt_append, List.map_append]
  simp

theorem place_zero (indentText text : String) : Output.place indentText 0 text = text := by
  unfold Output.place
  split
  · simp_all
  · simp [String.join]

end Step

namespace Listing

open Step

/-- The line that opens the manifest of an assembly. -/
def manifestHead (a : AssemblyIdentity) : String :=
  (if a.isRetargetable then ".assembly retargetable" else ".assembly") ++ " " ++
    Identifier.escapeDotted a.name

theorem render_identity (a : AssemblyIdentity) :
    ∃ inner, Step.render (identity a) =
      manifestHead a ++ "\n" ++ openBlock ++ "\n" ++ inner ++ closeBlock ++ "\n" := by
  obtain ⟨inside, hinside⟩ : ∃ inside, identity a =
      .line (manifestHead a) :: .line openBlock :: (inside ++ [.line closeBlock]) := ⟨_, rfl⟩
  have hdepth : depthAfter 0 inside = 0 := by
    have hblock : Block IsPlain (identity a) := block_identity (fun _ h => h) a
    have hback : depthAfter 0 (identity a) = 0 := hblock.depthAfter_eq 0
    rw [hinside] at hback
    have hrest : depthAfter 0 (inside ++ [.line closeBlock]) = 0 := hback
    rw [depthAfter_append] at hrest
    exact hrest
  refine ⟨String.join ((linesAt 0 inside).map fun l => Output.place "\t" l.1 l.2 ++ "\n"), ?_⟩
  rw [render_eq_linesAt, hinside, linesAt_line, linesAt_line, linesAt_append, hdepth]
  simp [place_zero, String.append_assoc]

/-- The manifest stands behind the references, from the start of a line on. -/
theorem exists_render_eq (order : MemberOrder) {image : ModuleImage} {a : AssemblyIdentity}
    (h : image.assembly? = some a) :
    ∃ inner after, Listing.render order image = Step.render (references image) ++
      (manifestHead a ++ "\n" ++ openBlock ++ "\n" ++ inner ++ closeBlock ++ "\n") ++ after := by
  obtain ⟨inner, hinner⟩ := render_identity a
  have hreferences : Block IsPlain (references image) := block_references (fun _ h => h) image
  have hidentity : Block IsPlain (identity a) := block_identity (fun _ h => h) a
  have hall : ∃ rest, all order image = references image ++ (identity a ++ rest) := by
    unfold all assembly
    rw [h]
    simp only [List.append_assoc]
    exact ⟨_, rfl⟩
  obtain ⟨rest, hall⟩ := hall
  refine ⟨inner, Step.render rest, ?_⟩
  rw [Listing.render, hall, render_append hreferences, render_append hidentity, hinner]
  simp only [String.append_assoc]

end Listing

/-! ### What the check asks for -/

namespace OpenedFile

theorem source_eq_ok_iff {f : OpenedFile} {module : ModuleSource} :
    f.source = .ok module ↔ f.executable = module.executable ∧
      f.managed? = some (module.header, some module.tables) := by
  unfold source
  constructor
  · intro h
    split at h
    · cases h
    · cases h
    · rename_i header tables hmanaged
      cases h
      exact ⟨rfl, hmanaged⟩
  · rintro ⟨hexecutable, hmanaged⟩
    rw [hmanaged, hexecutable]

end OpenedFile

section

variable {file : Bytes → Except ContainerFault OpenedFile}
  {code : Executable → Nat → Except BodyFault Code} {bytes : Bytes}

theorem Decoders.source_eq_ok_iff {module : ModuleSource} :
    (Decoders.ofReaders file code).source bytes = .ok module ↔
      ∃ f, file bytes = .ok f ∧ f.source = .ok module := by
  unfold Decoders.source Decoders.ofReaders
  cases hfile : file bytes with
  | error e => simp [hfile, Except.mapError, bind, Except.bind]
  | ok f => simp [hfile, Except.mapError, bind, Except.bind]

theorem isAssemblyWith_eq_true_iff :
    isAssemblyWith file bytes = .ok true ↔
      ∃ f module, file bytes = .ok f ∧ f.source = .ok module ∧ module.tables.assemblies ≠ [] := by
  unfold isAssemblyWith
  cases hfile : file bytes with
  | error e => simp [bind, Except.bind]
  | ok f =>
    cases hsource : f.source with
    | error e => simp [bind, Except.bind, hsource, pure, Except.pure]
    | ok module => simp [bind, Except.bind, hsource, pure, Except.pure]

theorem isAssemblyWith_of_source {f : OpenedFile} {module : ModuleSource}
    (hfile : file bytes = .ok f) (hsource : f.source = .ok module) :
    isAssemblyWith file bytes = .ok (!module.tables.assemblies.isEmpty) := by
  simp [isAssemblyWith, hfile, hsource, bind, Except.bind, pure, Except.pure]

end

theorem ModuleImage.assembly?_of_source {decoders : Decoders} {path : String}
    {module : ModuleSource} {image : ModuleImage}
    (h : ModuleImage.ofSourceWith decoders path module = .ok image) :
    image.assembly?.isSome = !module.tables.assemblies.isEmpty := by
  obtain ⟨loader, hloader, himage⟩ := exists_of_bind_eq_ok h
  obtain ⟨attachments, -, hattachments⟩ := exists_of_bind_eq_ok hloader
  obtain ⟨types, -, htypes⟩ := exists_of_bind_eq_ok himage
  cases hattachments
  cases htypes
  simp only [Loader.assembly?, Option.isSome_map, Loader.tables]
  cases module.tables.assemblies <;> rfl

/-! ### Both on a workspace -/

namespace Disassembler

section

variable {file : Bytes → Except ContainerFault OpenedFile}
  {code : Executable → Nat → Except BodyFault Code} {path : Path} {w : Workspace}

theorem isAssemblyWith_of_ok {bytes : Bytes} {answer : Bool} (hread : w.read path = .ok bytes)
    (hanswer : ILDump.isAssemblyWith file bytes = .ok answer) :
    isAssemblyWith file path w = .ok answer w := by
  rw [isAssemblyWith_eq, hread]
  simp only [hanswer]
  rfl

theorem exists_of_accepted {w' : Workspace} (h : isAssemblyWith file path w = .ok true w') :
    ∃ bytes f module, w.read path = .ok bytes ∧ file bytes = .ok f ∧ f.source = .ok module ∧
      module.tables.assemblies ≠ [] := by
  rw [isAssemblyWith_eq] at h
  cases hread : w.read path with
  | error e =>
    rw [hread] at h
    cases e <;> cases h
  | ok bytes =>
    rw [hread] at h
    simp only at h
    cases hanswer : ILDump.isAssemblyWith file bytes with
    | error e =>
      rw [hanswer] at h
      cases h
    | ok answer =>
      rw [hanswer] at h
      cases h
      obtain ⟨f, module, hfile, hsource, hassemblies⟩ := isAssemblyWith_eq_true_iff.mp hanswer
      exact ⟨bytes, f, module, rfl, hfile, hsource, hassemblies⟩

theorem exists_of_loaded {image : ModuleImage} {w' : Workspace}
    (h : loadWith (.ofReaders file code) path w = .ok image w') :
    w' = w ∧ ∃ bytes f module, w.read path = .ok bytes ∧ file bytes = .ok f ∧
      f.source = .ok module ∧
      ModuleImage.ofSourceWith (.ofReaders file code) path.text module = .ok image := by
  rcases loadWith_cases (.ofReaders file code) path w with
    ⟨bytes, image', hread, himage, hload⟩ | ⟨e, hload⟩
  · rw [hload] at h
    cases h
    obtain ⟨module, hmodule, himage⟩ := exists_of_bind_eq_ok himage
    obtain ⟨f, hfile, hsource⟩ := Decoders.source_eq_ok_iff.mp hmodule
    exact ⟨rfl, bytes, f, module, hread, hfile, hsource, himage⟩
  · rw [hload] at h
    cases h

/-- In a module that was found, only signatures and code can be at fault, or names without end. -/
theorem signature_or_body {path : String} {module : ModuleSource} {fault : ModuleFault}
    (h : ModuleImage.ofSourceWith (.ofReaders file code) path module = .error fault) :
    fault = .endless ∨ (∃ e, fault = .signature e) ∨ ∃ e, fault = .body e := by
  obtain ⟨before, r, after, -, hr, -⟩ := (ModuleImage.ofSourceWith_eq_error_iff _ _ _).mp h
  rcases Reading.eq_ofNaming_or_code _ _ hr with ⟨e, rfl⟩ | ⟨address, -, hcode⟩
  · cases e
    case endless => exact .inl rfl
    all_goals exact .inr (.inl ⟨_, rfl⟩)
  · refine .inr (.inr ?_)
    simp only [Decoders.ofReaders] at hcode
    cases hread : code module.executable address with
    | ok c =>
      rw [hread] at hcode
      cases hcode
    | error e =>
      rw [hread] at hcode
      exact ⟨e, (Except.error.inj hcode).symm⟩

/-- An accepted file has been opened, so what stops its loading is in the module. -/
theorem failure_of_accepted {e : Failure} {w' : Workspace}
    (haccepted : isAssemblyWith file path w = .ok true w)
    (hload : loadWith (.ofReaders file code) path w = .error e w') :
    e = .endless ∨
      ∃ fault, ((∃ s, fault = .signature s) ∨ ∃ b, fault = .body b) ∧
        e = .diagnosed .disassembly
          (.disassemblyFailed path.text (some (ModuleFault.message path.text fault)) none) := by
  obtain ⟨bytes, f, module, hread, hfile, hsource, -⟩ := exists_of_accepted haccepted
  have hmodule : (Decoders.ofReaders file code).source bytes = .ok module :=
    Decoders.source_eq_ok_iff.mpr ⟨f, hfile, hsource⟩
  rw [loadWith_eq, hread] at hload
  simp only [ofBytesWith_of_source _ hmodule] at hload
  cases himage : ModuleImage.ofSourceWith (.ofReaders file code) path.text module with
  | ok image =>
    rw [himage] at hload
    cases hload
  | error fault =>
    rw [himage] at hload
    cases hload
    rcases signature_or_body himage with rfl | ⟨s, rfl⟩ | ⟨b, rfl⟩
    · exact .inl rfl
    · exact .inr ⟨_, .inl ⟨s, rfl⟩, rfl⟩
    · exact .inr ⟨_, .inr ⟨b, rfl⟩, rfl⟩

end

/-- How the check of a file and its loading go together, whatever opens files and reads code.
    `isAssembly` and `load` are the ones for the readers of the program. -/
structure Agreement (file : Bytes → Except ContainerFault OpenedFile)
    (code : Executable → Nat → Except BodyFault Code) (path : Path) (w : Workspace) : Prop where
  /-- A file is accepted exactly if it opens, has a header for managed code and tables, and these
      have a row for an assembly. -/
  accepts : isAssemblyWith file path w = .ok true w ↔
    ∃ bytes f header tables, w.read path = .ok bytes ∧ file bytes = .ok f ∧
      f.managed? = some (header, some tables) ∧ tables.assemblies ≠ []
  unchanged : ∀ w', isAssemblyWith file path w = .ok true w' → w' = w
  /-- A file that can be read gets an answer, whatever it holds. -/
  answers : ∀ bytes, w.read path = .ok bytes →
    ∃ answer w', isAssemblyWith file path w = .ok answer w'
  /-- On a file that is loaded the check answers what the loader has found. -/
  loaded : ∀ image w', loadWith (.ofReaders file code) path w = .ok image w' →
    isAssemblyWith file path w = .ok image.assembly?.isSome w
  /-- Loading an accepted file can fail, but not at opening it and not for lack of a header or of
      tables: it is a signature or a method body, or a name without end. -/
  failures : isAssemblyWith file path w = .ok true w →
    ∀ e w', loadWith (.ofReaders file code) path w = .error e w' →
      e = .endless ∨
        ∃ fault, ((∃ s, fault = .signature s) ∨ ∃ b, fault = .body b) ∧
          e = .diagnosed .disassembly
            (.disassemblyFailed path.text (some (ModuleFault.message path.text fault)) none)
  /-- Every listing of an accepted file has the manifest of the assembly. -/
  manifest : isAssemblyWith file path w = .ok true w →
    ∀ image w', loadWith (.ofReaders file code) path w = .ok image w' →
      ∃ a, image.assembly? = some a ∧ ∀ order, ∃ inner after,
        Listing.render order image = Step.render (Listing.references image) ++
          (Listing.manifestHead a ++ "\n" ++ Listing.openBlock ++ "\n" ++ inner ++
            Listing.closeBlock ++ "\n") ++ after

/-- **The check and the loader agree.** -/
theorem agreement (file : Bytes → Except ContainerFault OpenedFile)
    (code : Executable → Nat → Except BodyFault Code) (path : Path) (w : Workspace) :
    Agreement file code path w := by
  have hloaded : ∀ image w', loadWith (.ofReaders file code) path w = .ok image w' →
      isAssemblyWith file path w = .ok image.assembly?.isSome w := by
    intro image w' hload
    obtain ⟨-, bytes, f, module, hread, hfile, hsource, himage⟩ := exists_of_loaded hload
    rw [ModuleImage.assembly?_of_source himage]
    exact isAssemblyWith_of_ok hread (isAssemblyWith_of_source hfile hsource)
  constructor
  case accepts =>
    constructor
    · intro haccepted
      obtain ⟨bytes, f, module, hread, hfile, hsource, hassemblies⟩ := exists_of_accepted haccepted
      have hmanaged := (OpenedFile.source_eq_ok_iff.mp hsource).2
      exact ⟨bytes, f, module.header, module.tables, hread, hfile, hmanaged, hassemblies⟩
    · rintro ⟨bytes, f, header, tables, hread, hfile, hmanaged, hassemblies⟩
      have hsource : f.source = .ok ⟨f.executable, header, tables⟩ :=
        OpenedFile.source_eq_ok_iff.mpr ⟨rfl, hmanaged⟩
      exact isAssemblyWith_of_ok hread
        (isAssemblyWith_eq_true_iff.mpr ⟨f, _, hfile, hsource, hassemblies⟩)
  case unchanged =>
    intro w' haccepted
    obtain ⟨bytes, f, module, hread, hfile, hsource, hassemblies⟩ := exists_of_accepted haccepted
    have hanswer := isAssemblyWith_eq_true_iff.mpr ⟨f, module, hfile, hsource, hassemblies⟩
    rw [isAssemblyWith_of_ok hread hanswer] at haccepted
    cases haccepted
    rfl
  case answers =>
    intro bytes hread
    rw [isAssemblyWith_eq, hread]
    simp only
    cases ILDump.isAssemblyWith file bytes with
    | ok answer => exact ⟨answer, _, rfl⟩
    | error e => exact ⟨false, _, rfl⟩
  case loaded => exact hloaded
  case failures =>
    intro haccepted e w' hload
    exact failure_of_accepted haccepted hload
  case manifest =>
    intro haccepted image w' hload
    have hsome := hloaded image w' hload
    rw [haccepted] at hsome
    have hassembly : image.assembly?.isSome = true := (EStateM.Result.ok.inj hsome).1.symm
    obtain ⟨a, ha⟩ := Option.isSome_iff_exists.mp hassembly
    exact ⟨a, ha, fun order => Listing.exists_render_eq order ha⟩

end Disassembler

end ILDump
