import ILDump.Disassembler
import ILDump.Proofs.Outcomes
import ILDump.Proofs.Pipeline.OnWorkspace

/-!
# The steps of a disassembly

A disassembly reads its source, loads the module and writes the listing, in this order. What
it comes to depends on the file that is read and on whether the destination can be written.
-/

namespace ILDump.Disassembler

variable {decoders : Decoders} {source : Path} {w : Workspace}

theorem loadWith_eq :
    loadWith decoders source w =
      match w.read source with
      | .error .notFound => .error (.diagnosed .disassembly (.metadataUnreadable source.text
          (some ("File vanished: " ++ DiskError.notFound.message source.text)))) w
      | .error e => .error (.disk e source.text) w
      | .ok bytes =>
        match ModuleImage.ofBytesWith decoders source.text bytes with
        | .ok image => .ok image w
        | .error f => .error (loadFailure source.text f) w := by
  have hwork : loadWith decoders source w =
      (match w.read source with
        | .error .notFound => throw (.diagnosed .disassembly (.metadataUnreadable source.text
            (some ("File vanished: " ++ DiskError.notFound.message source.text))))
        | .error e => throw (.disk e source.text)
        | .ok bytes =>
          match ModuleImage.ofBytesWith decoders source.text bytes with
          | .ok image => return image
          | .error f => throw (loadFailure source.text f) : Session ModuleImage) w := rfl
  rw [hwork]
  cases w.read source with
  | error e => cases e <;> rfl
  | ok bytes =>
    dsimp only
    cases ModuleImage.ofBytesWith decoders source.text bytes <;> rfl

/-- The check reads the file and goes by what opens it. -/
theorem isAssemblyWith_eq (file : Bytes → Except ContainerFault OpenedFile) (path : Path) :
    isAssemblyWith file path w =
      (match w.read path with
        | .error .notFound => do
          Session.log .warning ("The " ++ path.text ++ " file cannot be found.")
          return false
        | .error e => throw (.disk e path.text)
        | .ok bytes =>
          match ILDump.isAssemblyWith file bytes with
          | .ok answer => return answer
          | .error _ => do
            Session.log .warning ("The " ++ path.text ++ " file is not an executable.")
            return false : Session Bool) w :=
  rfl

/-- Loading misses no tool. -/
theorem loadFailure_ne_tool {path : String} (f : ModuleFault) (d : Diagnosis) :
    loadFailure path f ≠ .diagnosed .tool d := by
  unfold loadFailure
  split
  · exact Failure.noConfusion
  · split <;> simp

theorem disassembleWith_of_load_error (order : MemberOrder) (destination : Path) {e : Failure}
    (h : loadWith decoders source w = .error e w) :
    disassembleWith decoders order source destination w = .error e w :=
  bind_eq_of_error h

theorem disassembleWith_of_load_ok (order : MemberOrder) (destination : Path) {image : ModuleImage}
    (h : loadWith decoders source w = .ok image w) :
    disassembleWith decoders order source destination w =
      match w.tree.write w.cwd destination (Utf8.encode (Listing.render order image)) with
      | .ok tree => .ok () { w with tree }
      | .error e => .error (.diagnosed .disassembly (.outputWriteFailed destination.text
          (some (e.message destination.text)))) w := by
  have hwrite := Pipeline.write_eq destination (Utf8.encode (Listing.render order image)) w
  rw [disassembleWith, bind_eq_of_ok h]
  cases hres : w.tree.write w.cwd destination (Utf8.encode (Listing.render order image)) with
  | ok tree =>
    rw [hres] at hwrite
    exact bind_eq_of_ok hwrite
  | error e =>
    rw [hres] at hwrite
    exact bind_eq_of_ok hwrite

/-- Loading leaves the workspace as it is. -/
theorem loadWith_cases (decoders : Decoders) (source : Path) (w : Workspace) :
    (∃ bytes image, w.read source = .ok bytes ∧
      ModuleImage.ofBytesWith decoders source.text bytes = .ok image ∧
      loadWith decoders source w = .ok image w) ∨
    ∃ e, loadWith decoders source w = .error e w := by
  rw [loadWith_eq]
  cases w.read source with
  | error e => cases e <;> exact .inr ⟨_, rfl⟩
  | ok bytes =>
    cases himage : ModuleImage.ofBytesWith decoders source.text bytes with
    | ok image => exact .inl ⟨bytes, image, rfl, himage, by simp [himage]⟩
    | error f => exact .inr ⟨_, by simp [himage]; rfl⟩

end ILDump.Disassembler
