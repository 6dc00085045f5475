import ILDump.Module.Loader
import ILDump.Proofs.Outcomes

/-!
# What loading reads, in order

Loading a module reads one thing after the other: first the rows that attach something, then
the side tables of types, then each type, its base and the type around it named first, with its
members, and of a method its signature, its code, its local variables, clauses and
instructions. `readings` lists all of them, and `Meets` says that work ends with the fault of
the first one that has one, or succeeds if none has. The readings of code depend on the code
itself, everything else is fixed by the tables.
-/

namespace ILDump

/-- One thing that is read when a module is loaded. -/
inductive Reading where
  | customAttribute (r : AttributeRow)
  | accessors (r : SemanticsRow)
  | interface (r : InterfaceRow)
  | property (r : PropertyRow)
  | event (r : EventRow)
  | base (r : TypeDefRow)
  /-- The name of the type around the type in a row. -/
  | around (number : Nat)
  | field (r : FieldRow)
  | signature (r : MethodRow)
  | code (address : Nat)
  | locals (c : Code)
  | clause (c : CodeClause)
  | operand (start : Nat) (i : CodeInstruction)

def fault? {ε α : Type} : Except ε α → Option ε
  | .ok _ => none
  | .error e => some e

namespace Reading

section Faults

variable (t : Tables) (code : Nat → Except ModuleFault Code)

/-- The fault of a type that is named, if one is. -/
def typeFault? (token? : Option Token) : Option ModuleFault :=
  token?.bind fun token => (ILDump.fault? (t.typeName token)).map .ofNaming

def fault? : Reading → Option ModuleFault
  | customAttribute r => (ILDump.fault? (Attachments.attributeOf t r)).map .ofNaming
  | accessors r => (ILDump.fault? (Attachments.accessorsOfRow t r)).map .ofNaming
  | interface r => typeFault? t r.interface?
  | property r =>
    (ILDump.fault? ((Reader.property t.typeName).decode r.signature)).map .ofNaming
  | event r => typeFault? t r.type?
  | base r => typeFault? t r.extends?
  | around number => (ILDump.fault? (t.around? number)).map .ofNaming
  | field r => (ILDump.fault? (t.fieldType r.signature)).map .ofNaming
  | signature r => (ILDump.fault? (t.methodSignature r.signature)).map .ofNaming
  | .code address => ILDump.fault? (code address)
  | locals c => (ILDump.fault? (Loader.locals? t c.localsToken)).map .ofNaming
  | clause c => (ILDump.fault? (Loader.exceptionClause t c)).map .ofNaming
  | operand start i => (ILDump.fault? (Loader.operandText t start i.operand)).map .ofNaming

/-- Only code can be at fault otherwise than in naming. -/
theorem eq_ofNaming_or_code {r : Reading} {f : ModuleFault} (h : r.fault? t code = some f) :
    (∃ e, f = .ofNaming e) ∨ ∃ address, r = .code address ∧ code address = .error f := by
  have hnaming {x? : Option SignatureFault} (h : x?.map .ofNaming = some f) :
      ∃ e, f = .ofNaming e := by
    obtain ⟨e, -, he⟩ := Option.map_eq_some_iff.mp h
    exact ⟨e, he.symm⟩
  have htype {token? : Option Token} (h : typeFault? t token? = some f) :
      ∃ e, f = .ofNaming e := by
    obtain ⟨token, -, h⟩ := Option.bind_eq_some_iff.mp h
    exact hnaming h
  cases r with
  | interface r => exact .inl (htype h)
  | event r => exact .inl (htype h)
  | base r => exact .inl (htype h)
  | code address =>
    refine .inr ⟨address, rfl, ?_⟩
    rw [fault?] at h
    cases hcode : code address with
    | ok c =>
      rw [hcode] at h
      cases h
    | error e =>
      rw [hcode] at h
      cases h
      rfl
  | _ => exact .inl (hnaming h)

/-! ### The order of reading -/

def ofCode (c : Code) : List Reading :=
  .locals c :: c.clauses.map .clause ++ c.instructions.map (.operand c.start)

def ofBody (address : Nat) : List Reading :=
  .code address ::
    match code address with
    | .ok c => ofCode c
    | .error _ => []

def ofMethod (r : MethodRow) : List Reading :=
  .signature r :: if Loader.hasBody r then ofBody code r.address else []

/-- The readings of a run of rows; rows that are not there are left out. -/
def ofRun {α : Type} (readings : α → List Reading) (rows : List α) (run : List Nat) :
    List Reading :=
  (run.filterMap (Tables.row? rows)).flatMap readings

def ofType (number : Nat) (r : TypeDefRow) : List Reading :=
  .base r :: .around number :: ofRun (fun r => [.field r]) t.fields r.fields ++
    ofRun (ofMethod code) t.methods r.methods

def ofTypes : List Reading :=
  (t.typeDefs.mapIdx fun i r => (i + 1, r)).flatMap fun p => ofType t code p.1 p.2

/-- The readings of the preparation. -/
def ofAttachments : List Reading :=
  t.attributes.map .customAttribute ++ t.semantics.map .accessors

/-- The readings of what the side tables say about types. -/
def ofParts : List Reading :=
  t.interfaces.map .interface ++
    (t.propertyMaps.flatMap (fun m => ofRun (fun r => [.property r]) t.properties m.members) ++
      t.eventMaps.flatMap fun m => ofRun (fun r => [.event r]) t.events m.members)

def all : List Reading :=
  ofAttachments t ++ (ofParts t ++ ofTypes t code)

end Faults

end Reading

/-! ### Work that ends with the first fault -/

section Meets

variable {ε α β : Type} {t : Tables} {code : Nat → Except ModuleFault Code}

/-- Work ends with the fault of the first of these readings that has one, and succeeds if none
    has. -/
def Meets (t : Tables) (code : Nat → Except ModuleFault Code) (report : ε → ModuleFault)
    (x : Except ε α) (rs : List Reading) : Prop :=
  (fault? x).map report = rs.findSome? (·.fault? t code)

namespace Meets

variable {report : ε → ModuleFault} {x : Except ε α} {rs rs' : List Reading}

theorem pure (a : α) : Meets t code report (.ok a : Except ε α) [] := rfl

theorem one {r : Reading} (h : (fault? x).map report = r.fault? t code) :
    Meets t code report x [r] := by
  rw [Meets, h, List.findSome?_singleton]

theorem bind {f : α → Except ε β} (hx : Meets t code report x rs)
    (hf : ∀ a, x = .ok a → Meets t code report (f a) rs') :
    Meets t code report (x >>= f) (rs ++ rs') := by
  rw [Meets, List.findSome?_append, ← hx]
  cases x with
  | error e => rfl
  | ok a => exact hf a rfl

theorem map (f : α → β) (hx : Meets t code report x rs) : Meets t code report (f <$> x) rs := by
  rw [Meets, ← hx]
  cases x <;> rfl

theorem ite {p : Prop} [Decidable p] {y : Except ε α} (hx : Meets t code report x rs)
    (hy : Meets t code report y rs') :
    Meets t code report (if p then x else y) (if p then rs else rs') := by
  split
  · exact hx
  · exact hy

/-- What is done with the result does not matter. -/
theorem bind_pure {f : α → β} (hx : Meets t code report x rs) :
    Meets t code report (x >>= fun a => Pure.pure (f a)) rs := by
  rw [Meets, ← hx]
  cases x <;> rfl

theorem mapM {γ : Type} {f : γ → Except ε β} {readings : γ → List Reading}
    (h : ∀ c, Meets t code report (f c) (readings c)) (cs : List γ) :
    Meets t code report (cs.mapM f) (cs.flatMap readings) := by
  induction cs with
  | nil => exact .pure _
  | cons c cs ih =>
    rw [List.mapM_cons, List.flatMap_cons]
    exact (h c).bind fun _ _ => ih.bind_pure

theorem mapM_one {γ : Type} {f : γ → Except ε β} {reading : γ → Reading}
    (h : ∀ c, (fault? (f c)).map report = (reading c).fault? t code) (cs : List γ) :
    Meets t code report (cs.mapM f) (cs.map reading) := by
  have hcs : cs.map reading = cs.flatMap fun c => [reading c] := List.map_eq_flatMap
  rw [hcs]
  exact mapM (fun c => .one (h c)) cs

theorem named {x : Except SignatureFault α} (hx : Meets t code .ofNaming x rs) :
    Meets t code id (Loader.named x) rs := by
  rw [Meets, ← hx]
  cases x <;> rfl

theorem run {γ : Type} {load : Nat → γ → Except ModuleFault β} {readings : γ → List Reading}
    (h : ∀ n r, Meets t code id (load n r) (readings r)) (rows : List γ) (numbers : List Nat) :
    Meets t code id (Loader.loadRun load rows numbers) (Reading.ofRun readings rows numbers) := by
  have hrows : Reading.ofRun readings rows numbers =
      (numbers.filterMap fun n => (Tables.row? rows n).map (n, ·)).flatMap
        fun p => readings p.2 := by
    rw [Reading.ofRun]
    induction numbers with
    | nil => rfl
    | cons n numbers ih =>
      cases hrow : Tables.row? rows n with
      | none => simp [hrow, ih]
      | some r => simp [hrow, ih]
  rw [hrows]
  exact mapM (fun p : Nat × γ => h p.1 p.2) _

end Meets

end Meets

/-! ### Loading -/

namespace Loader

variable (l : Loader)

theorem meets_bodyOf (c : Code) :
    Meets l.tables l.code .ofNaming (bodyOf l.tables c) (Reading.ofCode c) := by
  have hlocals : Meets l.tables l.code .ofNaming (locals? l.tables c.localsToken) [.locals c] :=
    .one rfl
  have hclauses : Meets l.tables l.code .ofNaming (c.clauses.mapM (exceptionClause l.tables))
      (c.clauses.map .clause) := .mapM_one (fun _ => rfl) _
  have hinstructions : Meets l.tables l.code .ofNaming
      (c.instructions.mapM (instruction l.tables c.start))
      (c.instructions.map (.operand c.start)) := by
    refine .mapM_one (fun i => ?_) _
    rw [instruction, Reading.fault?]
    cases operandText l.tables c.start i.operand <;> rfl
  exact hlocals.bind fun _ _ => hclauses.bind fun _ _ => hinstructions.bind_pure

theorem meets_body (address : Nat) :
    Meets l.tables l.code id (l.body address) (Reading.ofBody l.code address) := by
  have hcode : Meets l.tables l.code id (l.code address) [.code address] :=
    .one Option.map_id'
  refine hcode.bind fun c hc => ?_
  rw [hc]
  exact (l.meets_bodyOf c).named

theorem meets_field (number : Nat) (r : FieldRow) :
    Meets l.tables l.code id (l.field number r) [.field r] :=
  (Meets.named (.one rfl)).bind_pure

theorem meets_property (number : Nat) (r : PropertyRow) :
    Meets l.tables l.code id (l.property number r) [.property r] :=
  (Meets.named (.one rfl)).bind_pure

theorem fault?_named_bind_pure {α β : Type} (x : Except SignatureFault α) (f : α → β) :
    (fault? (named x >>= fun a => pure (f a))).map id = (fault? x).map .ofNaming := by
  cases x <;> rfl

theorem meets_event (number : Nat) (r : EventRow) :
    Meets l.tables l.code id (l.event number r) [.event r] := by
  refine .one ?_
  rw [event, Reading.fault?, Reading.typeFault?]
  cases r.type? with
  | none => rfl
  | some type => exact fault?_named_bind_pure _ _

theorem meets_method (number : Nat) (r : MethodRow) :
    Meets l.tables l.code id (l.method number r) (Reading.ofMethod l.code r) := by
  have hsignature : Meets l.tables l.code id (named (l.tables.methodSignature r.signature))
      [.signature r] := .named (.one rfl)
  change Meets l.tables l.code id (l.method number r)
    ([.signature r] ++ if hasBody r then Reading.ofBody l.code r.address else [])
  refine hsignature.bind fun _ _ => .ite ?_ ?_
  · exact ((l.meets_body r.address).map some).bind_pure
  · exact .pure _

theorem meets_typeParts :
    Meets l.tables l.code id l.typeParts (Reading.ofParts l.tables) := by
  refine (Meets.mapM_one (fun r => ?interface) _).bind fun _ _ => ?_
  case interface =>
    rw [Reading.fault?, Reading.typeFault?]
    cases r.interface? with
    | none => rfl
    | some token => exact fault?_named_bind_pure _ _
  refine (Meets.mapM (fun m => ?property) _).bind fun _ _ => ?_
  case property => exact (Meets.run l.meets_property _ _).bind_pure
  refine (Meets.mapM (fun m => ?event) _).bind_pure
  exact (Meets.run l.meets_event _ _).bind_pure

theorem meets_typeInfo (parts : TypeParts) (number : Nat) (r : TypeDefRow) :
    Meets l.tables l.code id (l.typeInfo parts number r)
      (Reading.ofType l.tables l.code number r) := by
  have hmembers (extends? : Option String) : Meets l.tables l.code id
      (do
        let enclosing? ← named (l.tables.around? number)
        let fields ← loadRun l.field l.tables.fields r.fields
        let methods ← loadRun l.method l.tables.methods r.methods
        return l.typeWith parts number r extends? enclosing? fields methods)
      ([.around number] ++ (Reading.ofRun (fun r => [.field r]) l.tables.fields r.fields ++
        Reading.ofRun (Reading.ofMethod l.code) l.tables.methods r.methods)) :=
    (Meets.one rfl).named.bind fun _ _ =>
      (Meets.run l.meets_field _ _).bind fun _ _ => (Meets.run l.meets_method _ _).bind_pure
  unfold typeInfo
  cases hextends : r.extends? with
  | none =>
    have hbase : Meets l.tables l.code id (pure none : Except ModuleFault (Option String))
        [.base r] := by
      refine .one ?_
      rw [Reading.fault?, Reading.typeFault?, hextends]
      rfl
    exact hbase.bind fun extends? _ => hmembers extends?
  | some base =>
    have hbase : Meets l.tables l.code id (some <$> named (l.tables.typeName base))
        [.base r] := by
      refine .one ?_
      rw [Reading.fault?, Reading.typeFault?, hextends]
      exact fault?_named_bind_pure _ _
    exact hbase.bind fun extends? _ => hmembers extends?

theorem meets_image (path : String) :
    Meets l.tables l.code id (l.image path)
      (Reading.ofParts l.tables ++ Reading.ofTypes l.tables l.code) := by
  have htypes : Meets l.tables l.code id l.types
      (Reading.ofParts l.tables ++ Reading.ofTypes l.tables l.code) :=
    l.meets_typeParts.bind fun parts _ =>
      (Meets.mapM (fun p : Nat × TypeDefRow => l.meets_typeInfo parts p.1 p.2) _).bind_pure
  exact htypes.bind_pure

end Loader

section Whole

variable (decoders : Decoders) (path : String) (source : ModuleSource)

theorem Attachments.meets_of (t : Tables) (code : Nat → Except ModuleFault Code) :
    Meets t code .ofNaming (Attachments.of t) (Reading.ofAttachments t) :=
  (Meets.mapM_one (fun _ => rfl) _).bind fun _ _ => (Meets.mapM_one (fun _ => rfl) _).bind_pure

/-- A module is loaded by reading everything in this order. -/
theorem ModuleImage.meets_ofSourceWith :
    Meets source.tables (decoders.code source.executable) id
      (ModuleImage.ofSourceWith decoders path source)
      (Reading.all source.tables (decoders.code source.executable)) := by
  have hprepared := (Attachments.meets_of source.tables (decoders.code source.executable)).named
  have himage (attachments : Attachments) : Meets source.tables (decoders.code source.executable) id
      ((Loader.mk source attachments (decoders.code source.executable)).image path)
      (Reading.ofParts source.tables ++
        Reading.ofTypes source.tables (decoders.code source.executable)) :=
    Loader.meets_image _ path
  simp only [ofSourceWith, Loader.ofWith, bind_assoc, pure_bind]
  exact hprepared.bind fun attachments _ => himage attachments

theorem ModuleImage.ofSourceWith_eq_error_iff {f : ModuleFault} :
    ModuleImage.ofSourceWith decoders path source = .error f ↔
      ∃ before r after,
        Reading.all source.tables (decoders.code source.executable) = before ++ r :: after ∧
        r.fault? source.tables (decoders.code source.executable) = some f ∧
        ∀ r' ∈ before, r'.fault? source.tables (decoders.code source.executable) = none := by
  rw [← List.findSome?_eq_some_iff, ← ModuleImage.meets_ofSourceWith decoders path source]
  cases ModuleImage.ofSourceWith decoders path source <;> simp [fault?]

theorem ModuleImage.exists_ofSourceWith_iff :
    (∃ image, ModuleImage.ofSourceWith decoders path source = .ok image) ↔
      ∀ r ∈ Reading.all source.tables (decoders.code source.executable),
        r.fault? source.tables (decoders.code source.executable) = none := by
  rw [← List.findSome?_eq_none_iff, ← ModuleImage.meets_ofSourceWith decoders path source]
  cases ModuleImage.ofSourceWith decoders path source <;> simp [fault?]

end Whole

end ILDump
