import ILDump.Proofs.Disassembler.Steps
import ILDump.Proofs.Module.Readings

/-!
# All or nothing

A disassembly reads its source, loads the module and writes the listing, in this order, and
only the last step touches the workspace. So a failure before it leaves everything as it was,
and a success changes the destination and nothing else. What a failure is reported as depends
on the class of the first fault that is met: handlers are tried in order, and bad signatures
have their own handler before the one for bad values, which they are as well. Names without end
are the one class that no handler is for.
-/

namespace ILDump

namespace Disassembler

/-! ### Classes of faults -/

/-- The classes of faults that the handlers of loading tell apart. -/
inductive FaultClass where
  | missingFile
  | format
  | noMetadata
  | signature
  | body
  | index
  | key
  | value
  | recursion
deriving DecidableEq

/-- Bad signatures and missing metadata are also bad values. -/
def FaultClass.isA (c handled : FaultClass) : Bool :=
  c = handled || (handled = .value && (c = .signature || c = .noMetadata))

/-- The handlers in the order in which they are tried, with the codes that they report. -/
def handlers : List (List FaultClass × TroubleCode) := [
  ([.missingFile], .metadataUnreadable),
  ([.format, .noMetadata], .metadataUnreadable),
  ([.signature, .body], .disassemblyFailed),
  ([.index, .key, .value], .metadataUnreadable)]

/-- The code of the first handler for a class. -/
def reportedCode? (c : FaultClass) : Option TroubleCode :=
  (handlers.find? fun h => h.1.any c.isA).map (·.2)

theorem reportedCode?_eq (c : FaultClass) :
    reportedCode? c = if c = .recursion then none
      else some (if c = .signature ∨ c = .body then .disassemblyFailed
        else .metadataUnreadable) := by
  cases c <;> rfl

def classOf : ModuleFault → FaultClass
  | .container _ => .format
  | .noManagedHeader => .noMetadata
  | .noTables => .noMetadata
  | .signature _ => .signature
  | .body _ => .body
  | .decoder (.format _) => .format
  | .decoder (.body _) => .body
  | .decoder (.index _) => .index
  | .decoder (.key _) => .key
  | .decoder (.value _) => .value
  | .endless => .recursion

/-- A fault is reported with the code of the first handler for its class. -/
theorem exists_loadFailure_eq (path : String) {f : ModuleFault} (h : f ≠ .endless) :
    ∃ d, loadFailure path f = .diagnosed .disassembly d ∧
      reportedCode? (classOf f) = some d.code := by
  cases f with
  | decoder f => cases f <;> exact ⟨_, rfl, rfl⟩
  | endless => exact absurd rfl h
  | _ => exact ⟨_, rfl, rfl⟩

theorem exists_source_eq_error {file : OpenedFile}
    (h : ∀ header tables, file.managed? ≠ some (header, some tables)) :
    ∃ f, file.source = .error f ∧ classOf f = .noMetadata := by
  unfold OpenedFile.source
  rcases hmanaged : file.managed? with _ | ⟨header, _ | tables⟩
  · exact ⟨_, rfl, rfl⟩
  · exact ⟨_, rfl, rfl⟩
  · exact absurd hmanaged (h header tables)

end Disassembler

/-! ### Writing -/

/-- What is written can be read back, and no other place is touched. -/
theorem Tree.read_of_write {t t' : Tree} {cwd : Place} {p : Path} {content : Bytes}
    (h : t.write cwd p content = .ok t') :
    ∃ there, t.locate cwd p = .ok there ∧ t'.read cwd p = .ok content ∧
      ∀ other, other ≠ there → t'.node? other = t.node? other := by
  obtain ⟨there, x, hlocate, hnode, rfl⟩ := Tree.write_eq_ok h
  have hnil : there ≠ [] := by
    rintro rfl
    exact hnode (Tree.node?_nil t)
  have hgrows := Tree.Grows.put_file hnil hnode content x
  refine ⟨there, hlocate, ?_, fun other hother => by rw [Tree.node?_put hnil, if_neg hother]⟩
  refine Tree.read_eq_ok_iff.mpr ⟨x, Tree.lookup?_eq_some_iff.mpr ⟨there, hgrows.walk hlocate, ?_⟩⟩
  rw [Tree.node?_put hnil, if_pos rfl]

namespace Disassembler

variable {decoders : Decoders} {order : MemberOrder} {source destination : Path} {w : Workspace}

/-- A fault of a class ends the disassembly, and nothing has changed. Its handler reports it; if
    there is none, it is told as it is. -/
def FailsWith (decoders : Decoders) (order : MemberOrder) (source destination : Path)
    (w : Workspace) (c : FaultClass) : Prop :=
  match reportedCode? c with
  | some code => c ≠ .recursion ∧
    code = (if c = .signature ∨ c = .body then .disassemblyFailed else .metadataUnreadable) ∧
    ∃ d, d.code = code ∧ disassembleWith decoders order source destination w =
      .error (.diagnosed .disassembly d) w
  | none => c = .recursion ∧
    disassembleWith decoders order source destination w = .error .endless w

theorem FailsWith.of_fault {bytes : Bytes} {f : ModuleFault} (hread : w.read source = .ok bytes)
    (hfault : ModuleImage.ofBytesWith decoders source.text bytes = .error f) :
    FailsWith decoders order source destination w (classOf f) := by
  have hload : loadWith decoders source w = .error (loadFailure source.text f) w := by
    rw [loadWith_eq, hread]
    simp only [hfault]
  by_cases hendless : f = .endless
  · subst hendless
    exact ⟨rfl, disassembleWith_of_load_error _ _ hload⟩
  · obtain ⟨d, hd, hcode⟩ := exists_loadFailure_eq source.text hendless
    rw [hd] at hload
    rw [FailsWith, hcode]
    have hclass : classOf f ≠ .recursion := by
      intro hclass
      rw [hclass] at hcode
      cases hcode
    rw [reportedCode?_eq, if_neg hclass] at hcode
    exact ⟨hclass, (Option.some.inj hcode).symm, d, rfl, disassembleWith_of_load_error _ _ hload⟩

/-- The destination has become the listing of the source, and no other place is touched. -/
def Listed (decoders : Decoders) (order : MemberOrder) (source destination : Path)
    (w w' : Workspace) : Prop :=
  ∃ bytes image there, w.read source = .ok bytes ∧
    ModuleImage.ofBytesWith decoders source.text bytes = .ok image ∧
    w.tree.locate w.cwd destination = .ok there ∧
    w' = { w with tree := w'.tree } ∧
    w'.read destination = .ok (Utf8.encode (Listing.render order image)) ∧
    ∀ other, other ≠ there → w'.tree.node? other = w.tree.node? other

/-- How a disassembly ends, whatever the source holds and whatever was in the workspace. -/
structure AllOrNothing (decoders : Decoders) (order : MemberOrder) (source destination : Path)
    (w : Workspace) : Prop where
  unchanged : ∀ e w', disassembleWith decoders order source destination w = .error e w' → w' = w
  missing : w.read source = .error .notFound →
    FailsWith decoders order source destination w .missingFile
  undecoded : ∀ bytes f, w.read source = .ok bytes → decoders.file bytes = .error f →
    FailsWith decoders order source destination w (classOf f)
  noMetadata : ∀ bytes file, w.read source = .ok bytes → decoders.file bytes = .ok file →
    (∀ header tables, file.managed? ≠ some (header, some tables)) →
    FailsWith decoders order source destination w .noMetadata
  /-- The first fault that is met decides, wherever in the module it is. Outside of code it is in a
      signature, unless a name has no end. -/
  firstFault : ∀ bytes module, w.read source = .ok bytes → decoders.source bytes = .ok module →
    ∀ before r after f,
      Reading.all module.tables (decoders.code module.executable) = before ++ r :: after →
      (∀ r' ∈ before, r'.fault? module.tables (decoders.code module.executable) = none) →
      r.fault? module.tables (decoders.code module.executable) = some f →
      FailsWith decoders order source destination w (classOf f) ∧
        ((∀ address, r ≠ .code address) →
          classOf f = if f = .endless then .recursion else .signature)
  /-- Without a fault the listing is written, unless the destination cannot be. -/
  faultless : ∀ bytes module, w.read source = .ok bytes → decoders.source bytes = .ok module →
    (∀ r ∈ Reading.all module.tables (decoders.code module.executable),
      r.fault? module.tables (decoders.code module.executable) = none) →
    ∃ image, ModuleImage.ofBytesWith decoders source.text bytes = .ok image ∧
      match w.tree.write w.cwd destination (Utf8.encode (Listing.render order image)) with
      | .ok tree => disassembleWith decoders order source destination w = .ok () { w with tree }
      | .error _ => ∃ d, d.code = .outputWriteFailed ∧
          disassembleWith decoders order source destination w =
            .error (.diagnosed .disassembly d) w
  success : ∀ w', disassembleWith decoders order source destination w = .ok () w' →
    Listed decoders order source destination w w'

theorem FailsWith.of_source {bytes : Bytes} {f : ModuleFault} (hread : w.read source = .ok bytes)
    (hfault : decoders.source bytes = .error f) :
    FailsWith decoders order source destination w (classOf f) := by
  refine .of_fault hread ?_
  rw [ModuleImage.ofBytesWith, hfault]
  rfl

theorem ofBytesWith_of_source {bytes : Bytes} {module : ModuleSource} (path : String)
    (h : decoders.source bytes = .ok module) :
    ModuleImage.ofBytesWith decoders path bytes =
      ModuleImage.ofSourceWith decoders path module := by
  rw [ModuleImage.ofBytesWith, h]
  rfl

theorem eq_of_disassembleWith_error {e : Failure} {w' : Workspace}
    (h : disassembleWith decoders order source destination w = .error e w') : w' = w := by
  rcases loadWith_cases decoders source w with ⟨bytes, image, -, -, hload⟩ | ⟨e', hload⟩
  · rw [disassembleWith_of_load_ok _ _ hload] at h
    split at h
    · cases h
    · cases h
      rfl
  · rw [disassembleWith_of_load_error _ _ hload] at h
    cases h
    rfl

theorem listed_of_disassembleWith_ok {w' : Workspace}
    (h : disassembleWith decoders order source destination w = .ok () w') :
    Listed decoders order source destination w w' := by
  rcases loadWith_cases decoders source w with ⟨bytes, image, hread, himage, hload⟩ | ⟨e, hload⟩
  · rw [disassembleWith_of_load_ok _ _ hload] at h
    split at h
    case h_1 tree hwrite =>
      cases h
      obtain ⟨there, hlocate, hreadBack, hothers⟩ := Tree.read_of_write hwrite
      exact ⟨bytes, image, there, hread, himage, hlocate, rfl, hreadBack, hothers⟩
    case h_2 => cases h
  · rw [disassembleWith_of_load_error _ _ hload] at h
    cases h

/-- **All or nothing.** -/
theorem disassembleWith_allOrNothing (decoders : Decoders) (order : MemberOrder)
    (source destination : Path) (w : Workspace) :
    AllOrNothing decoders order source destination w where
  unchanged e w' h := eq_of_disassembleWith_error h
  missing hread := by
    have hload : loadWith decoders source w =
        .error (.diagnosed .disassembly (.metadataUnreadable source.text
          (some ("File vanished: " ++ DiskError.notFound.message source.text)))) w := by
      rw [loadWith_eq, hread]
    exact ⟨by decide, rfl, _, rfl, disassembleWith_of_load_error _ _ hload⟩
  undecoded bytes f hread hfile := by
    refine .of_source hread ?_
    rw [Decoders.source, hfile]
    rfl
  noMetadata bytes file hread hfile hnone := by
    obtain ⟨f, hf, hclass⟩ := exists_source_eq_error hnone
    rw [← hclass]
    refine .of_source hread ?_
    rw [Decoders.source, hfile]
    exact hf
  firstFault bytes module hread hmodule before r after f hall hbefore hr := by
    constructor
    · refine .of_fault hread ?_
      rw [ofBytesWith_of_source _ hmodule, ModuleImage.ofSourceWith_eq_error_iff]
      exact ⟨before, r, after, hall, hr, hbefore⟩
    · intro hcode
      rcases Reading.eq_ofNaming_or_code _ _ hr with ⟨e, rfl⟩ | ⟨address, rfl, -⟩
      · cases e <;> rfl
      · exact absurd rfl (hcode address)
  faultless bytes module hread hmodule hnone := by
    obtain ⟨image, himage⟩ :=
      (ModuleImage.exists_ofSourceWith_iff decoders source.text module).mpr hnone
    rw [← ofBytesWith_of_source _ hmodule] at himage
    have hload : loadWith decoders source w = .ok image w := by
      rw [loadWith_eq, hread]
      simp only [himage]
    have hwork := disassembleWith_of_load_ok order destination hload
    refine ⟨image, himage, ?_⟩
    cases hwrite : w.tree.write w.cwd destination (Utf8.encode (Listing.render order image)) with
    | ok tree =>
      rw [hwrite] at hwork
      exact hwork
    | error e =>
      rw [hwrite] at hwork
      exact ⟨_, rfl, hwork⟩
  success w' h := listed_of_disassembleWith_ok h

end Disassembler

end ILDump
