import ILDump.Listing.Writer
import ILDump.Module.Loader
import ILDump.Proofs.Body.Addresses
import ILDump.Proofs.Outcomes
import ILDump.Proofs.Text.Numerals
import Mathlib.Data.List.Nodup

/-!
# Labels

The lines of a method body refer to each other by labels: the label of an instruction, of a
branch target and of the bounds of an exception clause are made in three places. They agree
because a label says its offset, however large, and because code, branch targets and clauses
come down to offsets from the same start.
-/

namespace ILDump

/-! ### Labels of lines -/

namespace Listing

theorem label_inj {m n : Int} (h : label m = label n) : m = n :=
  Digits.hexInt_inj ((String.append_right_inj "IL_").mp h)

/-- The label in front of a line. -/
def labelOf (line : String) : String :=
  String.ofList (line.toList.takeWhile (· ≠ ':'))

theorem labelOf_instruction (i : Instruction) : labelOf (instruction i) = label i.offset := by
  have hcolon : ∀ c ∈ (label i.offset).toList, decide (c ≠ ':') = true := by
    intro c hc
    rw [decide_eq_true_eq]
    rintro rfl
    rw [label, String.toList_append] at hc
    rcases List.mem_append.mp hc with hc | hc
    · exact absurd hc (by decide)
    · exact absurd (Digits.mem_hexInt hc) (by decide)
  have hline : ∃ rest, (instruction i).toList = (label i.offset).toList ++ ':' :: rest := by
    unfold instruction
    cases i.operand? <;> simp
  obtain ⟨rest, hrest⟩ := hline
  rw [labelOf, hrest, List.takeWhile_append_of_pos hcolon]
  simp

/-- The lines of the instructions of a body, and those of its clauses. -/
def instructionLines (b : MethodBody) : List String :=
  b.instructions.map instruction

def clauseLines (b : MethodBody) : List String :=
  b.exceptionClauses.map exceptionClause

/-- A method with a body has these lines, one after the other. -/
theorem exists_method_eq (owner : TypeInfo) {m : MethodDefinition} {b : MethodBody}
    (hbody : m.body? = some b) :
    ∃ before after, method owner m =
      before ++ (instructionLines b ++ clauseLines b).map .line ++ after := by
  refine ⟨[.line (methodHead m), .line openBlock, .indent] ++
      (customAttributes m.customAttributes ++
        (if m.isEntryPoint then [.line ".entrypoint"] else [])) ++
      ([.line ("// Code size " ++ toString b.codeSize ++ " (0x" ++
          Digits.hex .lower 1 b.codeSize ++ ")"),
        .line (".maxstack " ++ toString b.maxStack)] ++ localVariables b ++ [.line ""]),
    [.unindent, .line (closeBlock ++ " // end of method " ++ owner.name ++ "::" ++ m.name),
      .line ""], ?_⟩
  simp only [method, hbody, body, deeper, instructionLines, clauseLines, List.map_append,
    List.map_map, List.append_assoc, List.cons_append, List.nil_append]
  rfl

end Listing

/-! ### Bodies -/

/-- A label that exactly the lines of certain instructions begin with. -/
def StandsFor (c : Code) (lines : List String) (label : String) (which : CodeInstruction → Prop) :
    Prop :=
  List.Forall₂ (fun i line => Listing.labelOf line = label ↔ which i) c.instructions lines

/-- The line of an instruction. Where it branches, it shows the labels of the instructions it
    branches to. -/
structure InstructionLine (c : Code) (lines : List String) (i : CodeInstruction) (line : String) :
    Prop where
  label : Listing.labelOf line = Listing.label (i.address - c.start)
  text : ∃ rest, line = Listing.labelOf line ++ ": " ++ i.mnemonic ++ rest
  branch : ∀ target, i.operand = .target target →
    ∃ shown, line = Listing.labelOf line ++ ": " ++ i.mnemonic ++ " " ++ shown ∧
      StandsFor c lines shown fun j => (j.address : Int) = target
  switch : ∀ targets, i.operand = .targets targets →
    ∃ shown, line = Listing.labelOf line ++ ": " ++ i.mnemonic ++ " " ++
        ("(" ++ String.intercalate ", " shown ++ ")") ∧
      List.Forall₂ (fun label target =>
        StandsFor c lines label fun j => (j.address : Int) = target) shown targets

/-- The line of an exception clause. Its bounds are the labels of the instructions there. -/
def ClauseLine (c : Code) (lines : List String) (e : CodeClause) (line : String) : Prop :=
  ∃ tryStart tryEnd handling handlerStart handlerEnd,
    line = ".try " ++ tryStart ++ " to " ++ tryEnd ++ handling ++ " handler " ++ handlerStart ++
      " to " ++ handlerEnd ∧
    StandsFor c lines tryStart (fun j => (j.address : Int) - c.start = e.tryStart) ∧
    StandsFor c lines tryEnd
      (fun j => (j.address : Int) - c.start = e.tryStart + e.tryLength) ∧
    StandsFor c lines handlerStart (fun j => (j.address : Int) - c.start = e.handlerStart) ∧
    StandsFor c lines handlerEnd
      (fun j => (j.address : Int) - c.start = e.handlerStart + e.handlerLength) ∧
    (e.flags % 8 ≠ 0 → e.flags.testBit 0 = true → ∃ filterStart,
      handling = " filter " ++ filterStart ∧
        StandsFor c lines filterStart fun j => (j.address : Int) - c.start = e.last)

structure LabelsResolve (c : Code) (b : MethodBody) : Prop where
  written : ∀ owner m, m.body? = some b → ∃ before after, Listing.method owner m =
    before ++ (Listing.instructionLines b ++ Listing.clauseLines b).map .line ++ after
  instructions : List.Forall₂ (InstructionLine c (Listing.instructionLines b)) c.instructions
    (Listing.instructionLines b)
  clauses : List.Forall₂ (ClauseLine c (Listing.instructionLines b)) c.clauses
    (Listing.clauseLines b)
  distinct : (c.instructions.map (·.address)).Nodup →
    ((Listing.instructionLines b).map Listing.labelOf).Nodup

namespace Loader

variable {l : Loader} {address : Nat} {c : Code} {b : MethodBody}

theorem forall₂_of_body (hcode : l.code address = .ok c) (hbody : l.body address = .ok b) :
    List.Forall₂ (fun i i' => instruction l.tables c.start i = .ok i') c.instructions
        b.instructions ∧
      List.Forall₂ (fun e e' => exceptionClause l.tables e = .ok e') c.clauses
        b.exceptionClauses := by
  obtain ⟨c', hc', hbody⟩ := exists_of_bind_eq_ok hbody
  obtain rfl : c = c' := Except.ok.inj (hcode.symm.trans hc')
  cases hof : bodyOf l.tables c with
  | error e =>
    rw [hof] at hbody
    cases hbody
  | ok b' =>
    rw [hof] at hbody
    cases hbody
    obtain ⟨locals, -, hof⟩ := exists_of_bind_eq_ok hof
    obtain ⟨clauses, hclauses, hof⟩ := exists_of_bind_eq_ok hof
    obtain ⟨instructions, hinstructions, hof⟩ := exists_of_bind_eq_ok hof
    cases hof
    exact ⟨forall₂_of_mapM hinstructions, forall₂_of_mapM hclauses⟩

/-- The offset of a loaded instruction is the distance of its address from the start, and its
    line begins with the label of that. -/
theorem instruction_line {t : Tables} {start : Nat} {i : CodeInstruction} {i' : Instruction}
    (h : instruction t start i = .ok i') :
    Listing.labelOf (Listing.instruction i') = Listing.label (i.address - start) ∧
      ∃ operand?, operandText t start i.operand = .ok operand? ∧
        Listing.instruction i' = Listing.label (i.address - start) ++ ": " ++ i.mnemonic ++
          operand?.elim "" (" " ++ ·) := by
  obtain ⟨operand?, hoperand, h⟩ := exists_of_bind_eq_ok h
  cases h
  refine ⟨Listing.labelOf_instruction _, operand?, hoperand, ?_⟩
  cases operand? with
  | none => simp [Listing.instruction]
  | some operand => simp [Listing.instruction, String.append_assoc]

section Lines

variable {lines : List String} (hlines : List.Forall₂
  (fun (i : CodeInstruction) line => Listing.labelOf line = Listing.label (i.address - c.start))
  c.instructions lines)
include hlines

/-- Labels say their offsets, so the label of an offset stands for what is at that offset. -/
theorem standsFor_label (offset : Int) :
    StandsFor c lines (Listing.label offset) fun i => (i.address : Int) - c.start = offset :=
  hlines.imp fun i line h => by
    rw [h]
    exact ⟨Listing.label_inj, fun heq => by rw [heq]⟩

theorem standsFor_target (target : Int) :
    StandsFor c lines (targetText c.start target) fun i => (i.address : Int) = target :=
  (standsFor_label hlines (target - c.start)).imp fun _ _ h => h.trans (Int.sub_left_inj _)

theorem instructionLine {t : Tables} {i : CodeInstruction} {i' : Instruction}
    (h : instruction t c.start i = .ok i') :
    InstructionLine c lines i (Listing.instruction i') := by
  obtain ⟨hlabel, operand?, hoperand, hline⟩ := instruction_line h
  refine ⟨hlabel, ?text, ?branch, ?switch⟩
  case text => exact ⟨_, by rw [hlabel]; exact hline⟩
  case branch =>
    intro target htarget
    rw [htarget] at hoperand
    cases hoperand
    refine ⟨targetText c.start target, ?_, standsFor_target hlines target⟩
    rw [hlabel, hline, Option.elim]
    simp only [String.append_assoc]
  case switch =>
    intro targets htargets
    rw [htargets] at hoperand
    cases hoperand
    refine ⟨targets.map (targetText c.start), ?_, ?_⟩
    · rw [hlabel, hline, Option.elim]
      simp only [String.append_assoc]
    · rw [List.forall₂_map_left_iff]
      exact List.forall₂_same.mpr fun target _ => standsFor_target hlines target

theorem clauseLine {t : Tables} {e : CodeClause} {e' : ExceptionClause}
    (h : exceptionClause t e = .ok e') : ClauseLine c lines e (Listing.exceptionClause e') := by
  obtain ⟨handled, hhandled, h⟩ := exists_of_bind_eq_ok h
  cases h
  refine ⟨_, _, _, _, _, rfl, standsFor_label hlines _, standsFor_label hlines _,
    standsFor_label hlines _, standsFor_label hlines _, fun hflags hfilter => ?_⟩
  rw [handler, if_neg hflags, if_pos hfilter] at hhandled
  cases hhandled
  exact ⟨_, rfl, standsFor_label hlines _⟩

theorem nodup_labels (hnodup : (c.instructions.map (·.address)).Nodup) :
    (lines.map Listing.labelOf).Nodup := by
  have hlabels : lines.map Listing.labelOf =
      (c.instructions.map (·.address)).map fun a : Nat => Listing.label ((a : Int) - c.start) := by
    rw [List.map_map, ← List.forall₂_eq_eq_eq, List.forall₂_map_left_iff,
      List.forall₂_map_right_iff]
    exact hlines.flip
  rw [hlabels]
  refine List.Nodup.map (fun a a' heq => ?_) hnodup
  have hsame := Listing.label_inj heq
  omega

end Lines

theorem labelOf_instructionLines (hcode : l.code address = .ok c) (hbody : l.body address = .ok b) :
    List.Forall₂ (fun (i : CodeInstruction) line =>
      Listing.labelOf line = Listing.label (i.address - c.start)) c.instructions
      (Listing.instructionLines b) :=
  List.forall₂_map_right_iff.mpr
    ((forall₂_of_body hcode hbody).1.imp fun _ _ h => (instruction_line h).1)

/-- Code that was read from a file has no two instructions at one address. -/
theorem nodup_labels_of_read {fetch : Code.Fetch} (hread : Code.read fetch address = .ok c)
    (hcode : l.code address = .ok c) (hbody : l.body address = .ok b) :
    ((Listing.instructionLines b).map Listing.labelOf).Nodup :=
  nodup_labels (labelOf_instructionLines hcode hbody)
    ((Code.addresses_of_read hread).1.imp Nat.ne_of_lt)

/-- **Labels resolve.** -/
theorem labels_resolve (hcode : l.code address = .ok c) (hbody : l.body address = .ok b) :
    LabelsResolve c b := by
  have hlines := labelOf_instructionLines hcode hbody
  obtain ⟨hinstructions, hclauses⟩ := forall₂_of_body hcode hbody
  refine ⟨fun owner m hm => Listing.exists_method_eq owner hm, ?_, ?_, nodup_labels hlines⟩
  · exact List.forall₂_map_right_iff.mpr (hinstructions.imp fun _ _ h => instructionLine hlines h)
  · exact List.forall₂_map_right_iff.mpr (hclauses.imp fun _ _ h => clauseLine hlines h)

/-- A method with a switch, a branch and a filter clause, which all lead to an instruction
    more than 0xFFFF bytes behind the start. -/
def farLoader : Loader where
  source := {
    executable := ⟨[], 0, 0, 0, 0, 0, 0, 0, [], 0⟩
    header := ⟨0, 0, 0, ⟨0⟩⟩
    tables := {
      modules := [], typeRefs := [], params := [], interfaces := [], memberRefs := []
      constants := [], attributes := [], standAloneSigs := [], eventMaps := [], events := []
      propertyMaps := [], properties := [], semantics := [], moduleRefs := [], typeSpecs := []
      assemblies := [], assemblyRefs := [], genericParams := [], methodSpecs := []
      userStrings := [], typeDefs := [], fields := [], methods := [], nestedClasses := [] } }
  attachments := ⟨[], []⟩
  code _ := .ok {
    start := 0x205C, maxStack := 8, size := 0x10001, initLocals := false, localsToken := ⟨0⟩
    instructions := [⟨0x205C, "switch", .targets [0x1205C, 0x205C]⟩,
      ⟨0x2069, "br", .target 0x1205C⟩, ⟨0x1205C, "ret", .none⟩]
    clauses := [⟨1, 0, 0xD, 0xD, 0xFFF3, 0x10000⟩] }

theorem labels_resolve_sample : ∃ c b, farLoader.code 0x2050 = .ok c ∧
    farLoader.body 0x2050 = .ok b ∧ (c.instructions.map (·.address)).Nodup ∧
      LabelsResolve c b := by
  have hloads : ∃ b, farLoader.body 0x2050 = .ok b := ⟨_, rfl⟩
  obtain ⟨b, hbody⟩ := hloads
  exact ⟨_, b, rfl, hbody, by decide, labels_resolve rfl hbody⟩

end Loader

end ILDump
