import ILDump.Proofs.Pipeline.Order

/-!
# The protocol of a run

Which events a run may consist of, in which order, and how each of them lets the run go
on or end. The courses below speak of events and ends alone: of inputs, files and places
of stages, but of no state and no program. That a run follows them, whatever its
surroundings and its stages do, is `Observes.run`.
-/

namespace ILDump.Pipeline

/-! ### One file -/

/-- Where the listing of a file goes. -/
def Plan.destination (plan : Plan) (c : Candidate) : Path :=
  c.destination plan.cwd plan.outputRoot plan.keepStructure

/-- A file is accepted again, its directory is made, and some stages do their work. -/
def through (done : List Nat) (source destination : Path) : List Event :=
  [.validated source (.ok true), .madeDirectories destination.parent (.ok ())] ++
    done.map fun i => .called i source destination (.ok ())

/-- The calls of stages on a file, one after the other until one fails. -/
inductive Calls (order : List Nat) (source destination : Path) : Course Unit where
  | finished :
    Calls order source destination (order.map fun i => .called i source destination (.ok ()))
      (.ok ())
  | stopped {done later : List Nat} {i : Nat} {f : Failure} :
    order = done ++ i :: later →
    Calls order source destination
      ((done.map fun i => .called i source destination (.ok ())) ++
        [.called i source destination (.error f)])
      (.error f)

/-- What happens with one file, and the record it leaves. -/
inductive Dispatch (plan : Plan) (order : List Nat) (c : Candidate) :
    Course (Option Record) where
  | unchecked {f : Failure} :
    Dispatch plan order c [.validated c.path (.error f)] (.error f)
  | rejected {text : String} {r : Except Failure Unit} :
    Dispatch plan order c [.validated c.path (.ok false), .logged .warning text r]
      (r.map fun _ => none)
  | homeless {f : Failure} :
    Dispatch plan order c
      [.validated c.path (.ok true), .madeDirectories (plan.destination c).parent (.error f)]
      (.error f)
  /-- A stage misses its tool; the stages behind it are left out and the file is skipped. -/
  | toolMissing {done later : List Nat} {i : Nat} {d : Diagnosis} {text : String}
      {r : Except Failure Unit} :
    order = done ++ i :: later →
    Dispatch plan order c
      (through done c.path (plan.destination c) ++
        [.called i c.path (plan.destination c) (.error (.diagnosed .tool d)),
          .logged .error text r])
      (r.map fun _ => none)
  | failed {done later : List Nat} {i : Nat} {f : Failure} :
    order = done ++ i :: later → (∀ d, f ≠ .diagnosed .tool d) →
    Dispatch plan order c
      (through done c.path (plan.destination c) ++
        [.called i c.path (plan.destination c) (.error f)])
      (.error f)
  | completed {r : Except Failure Unit} :
    Dispatch plan order c
      (through order c.path (plan.destination c) ++
        [.reported (Record.line ⟨c.path, plan.destination c⟩) r])
      (r.map fun _ => some ⟨c.path, plan.destination c⟩)

/-! ### One input -/

inductive Remark (level : LogLevel) : Course Unit where
  | remark {text : String} {r : Except Failure Unit} : Remark level [.logged level text r] r

/-- The files of an input: the input itself, or those below it in ascending order. -/
inductive Files (plan : Plan) (path : Path) : InputKind → Course (List Path) where
  | file : Files plan path .file [] (.ok [path])
  | unsearched {f : Failure} :
    Files plan path .directory [.searched path plan.pattern (.error f)] (.error f)
  | directory {found sorted : List Path} {text : String} {r : Except Failure Unit} :
    sorted.Perm found → (sorted.Pairwise fun p q => p.le q = true) →
    Files plan path .directory
      [.searched path plan.pattern (.ok found), .logged .info text r] (r.map fun _ => sorted)

/-- Every file is checked once, and the accepted ones are kept. -/
inductive Discovery : List Path → Course (List Path) where
  | done : Discovery [] [] (.ok [])
  | stopped {path : Path} {rest : List Path} {f : Failure} :
    Discovery (path :: rest) [.validated path (.error f)] (.error f)
  | next {path : Path} {rest : List Path} {accepted : Bool} {events : List Event}
      {result : Except Failure (List Path)} :
    Discovery rest events result →
    Discovery (path :: rest) (.validated path (.ok accepted) :: events)
      (result.map fun others => if accepted then path :: others else others)

/-- What happens with one input: once it is known what it is, all its files are found and
    checked, and then those that were accepted are dispatched in the same order. -/
def Section (plan : Plan) (order : List Nat) (path : Path) : Course (List Record) :=
  (Course.call (.probed path)).Then fun kind? =>
    match kind? with
    | none => Course.nothing (.error (.diagnosed .input (.inputNotFound path.text)))
    | some kind =>
      (Remark .info).Then fun _ =>
      (Files plan path kind).Then fun files =>
      (Discovery files).Then fun accepted =>
        Course.Each Option.toList (Dispatch plan order) (accepted.map (⟨·, ⟨path, kind⟩⟩))

/-! ### The whole run -/

def Sections (plan : Plan) (order : List Nat) (inputs : List Path) : Course (List Record) :=
  (Course.Each id (Section plan order) inputs).Then fun records =>
    (Remark .info).Then fun _ => Course.nothing (.ok records)

/-- A run: either the preparation of a stage fails, and nothing else happens, or all stages
    are prepared, and then the inputs are handled. -/
inductive Conforms (plan : Plan) (order : List Nat) (inputs : List Path) :
    Course (List Record) where
  | unprepared {done later : List Nat} {i : Nat} {f : Failure} :
    order = done ++ i :: later →
    Conforms plan order inputs
      ((done.map fun i => .prepared i (.ok ())) ++ [.prepared i (.error f)]) (.error f)
  | prepared {events : List Event} {result : Except Failure (List Record)} :
    Sections plan order inputs events result →
    Conforms plan order inputs ((order.map fun i => .prepared i (.ok ())) ++ events) result

/-! ### Runs follow the protocol -/
namespace Surroundings

variable {σ : Type} (s : Surroundings σ) (plan : Plan) (stages : List (StageWork σ))

def takeInput (path : Path) : Work σ (List Record) := do
  match ← s.probe path with
  | none => throw (.diagnosed .input (.inputNotFound path.text))
  | some kind =>
    s.log .info ("Processing " ++ kind.text ++ " " ++ path.text)
    let paths ← s.files plan ⟨path, kind⟩
    let accepted ← s.assemblies paths
    s.dispatchAll plan stages (accepted.map (⟨·, ⟨path, kind⟩⟩))

theorem processAll_cons (path : Path) (rest : List Path) :
    s.processAll plan stages (path :: rest) = do
      let records ← s.takeInput plan stages path
      return records ++ (← s.processAll plan stages rest) := by
  simp only [processAll, takeInput, input, discover, bind_assoc]
  congr 1
  funext kind?
  cases kind? with
  | none => rfl
  | some kind => simp only [bind_assoc, pure_bind]

end Surroundings

namespace Observes

variable {σ : Type}

def preparationAt (i : Nat) : Course (StageWork σ) :=
  Course.call fun r => .prepared i (r.map fun _ => ())

/-- The preparation of stages under their places: one event for each. -/
def preparation (places : List Nat) : Course (List (StageWork σ)) :=
  Course.Each (fun work => [work]) preparationAt places

theorem length_of_preparation {places : List Nat} {events : List Event}
    {result : Except Failure (List (StageWork σ))} (h : preparation places events result) :
    ∀ works, result = .ok works →
      works.length = places.length ∧ events = places.map fun i => .prepared i (.ok ()) := by
  induction h with
  | done =>
    rintro works ⟨⟩
    exact ⟨rfl, rfl⟩
  | stopped _ =>
    rintro works ⟨⟩
  | @next i places before after work result hcall _ ih =>
    cases result with
    | error f =>
      rintro works ⟨⟩
    | ok rest =>
      rintro works ⟨⟩
      obtain ⟨hlength, hevents⟩ := ih rest rfl
      subst hcall hevents
      exact ⟨by simp [hlength], rfl⟩

/-- A failing preparation is the last one. -/
theorem stopped_of_preparation {places : List Nat} {events : List Event}
    {result : Except Failure (List (StageWork σ))} (h : preparation places events result) :
    ∀ f, result = .error f → ∃ done i later, places = done ++ i :: later ∧
      events = (done.map fun i => .prepared i (.ok ())) ++ [.prepared i (.error f)] := by
  induction h with
  | done =>
    rintro f ⟨⟩
  | @stopped i places events f hcall =>
    rintro f ⟨⟩
    subst hcall
    exact ⟨[], i, places, rfl, rfl⟩
  | @next i places before after work result hcall _ ih =>
    cases result with
    | ok rest =>
      rintro f ⟨⟩
    | error f =>
      rintro f ⟨⟩
      obtain ⟨done, j, later, hplaces, hevents⟩ := ih f rfl
      subst hcall hplaces hevents
      exact ⟨i :: done, j, later, rfl, rfl⟩

theorem prepareAll (entries : List (Stage σ × Nat)) :
    Observes (List.zipWith observedWork (entries.map (·.2)))
      (Stage.prepareAll (entries.map fun entry => observedStage entry.2 entry.1))
      (Stage.prepareAll (entries.map (·.1))) (preparation (entries.map (·.2))) := by
  induction entries with
  | nil =>
    refine (Observes.pure _ []).mono ?_
    rintro _ _ ⟨rfl, rfl⟩
    exact .done
  | cons entry rest ih =>
    have hone : Observes (observedWork entry.2) (observedStage entry.2 entry.1).prepare
        entry.1.prepare (preparationAt entry.2) :=
      (Observes.noted _ _).map (observedWork entry.2)
    have htail (work : StageWork σ) :
        Observes (List.zipWith observedWork ((entry :: rest).map (·.2)))
          (do
            let works ← Stage.prepareAll (rest.map fun entry => observedStage entry.2 entry.1)
            return observedWork entry.2 work :: works)
          (do
            let works ← Stage.prepareAll (rest.map (·.1))
            return work :: works)
          ((preparation (rest.map (·.2))).Then fun works => Course.nothing (.ok (work :: works))) :=
      ih.bind fun works => Observes.pure _ (work :: works)
    refine (hone.bind htail).mono ?_
    intro events result hthen
    exact Course.Each.cons (p := preparationAt) hthen

theorem runAll (source destination : Path) : ∀ (places : List Nat) (works : List (StageWork σ)),
    works.length = places.length →
    Observes id (Stage.runAll source destination (List.zipWith observedWork places works))
      (Stage.runAll source destination works) (Calls places source destination)
  | [], [], _ => by
    refine (Observes.pure id ()).mono ?_
    rintro _ _ ⟨rfl, rfl⟩
    exact .finished
  | i :: places, work :: works, hlength => by
    have hrest := runAll source destination places works (by simpa using hlength)
    refine ((Observes.noted (.called i source destination) _).bind fun _ => hrest).mono ?_
    rintro events result (⟨rfl⟩ | ⟨rfl, ⟨⟩ | @⟨done, later, j, f, rfl⟩⟩)
    · have hsplit : i :: places = [] ++ i :: places := rfl
      exact .stopped hsplit
    · exact .finished
    · have hsplit : i :: (done ++ j :: later) = (i :: done) ++ j :: later := rfl
      exact .stopped hsplit

variable (s : Surroundings σ) (plan : Plan) {places : List Nat} {works : List (StageWork σ)}

theorem remark (level : LogLevel) (text : String) :
    Observes id (s.observed.log level text) (s.log level text) (Remark level) := by
  refine (Observes.noted _ _).mono ?_
  rintro events result rfl
  exact .remark

/-- What comes after the stages were called on a file. -/
inductive Aftermath (plan : Plan) (c : Candidate) : Option Diagnosis → Course (Option Record) where
  | toolMissing {d : Diagnosis} {text : String} {r : Except Failure Unit} :
    Aftermath plan c (some d) [.logged .error text r] (r.map fun _ => none)
  | completed {r : Except Failure Unit} :
    Aftermath plan c none [.reported (Record.line ⟨c.path, plan.destination c⟩) r]
      (r.map fun _ => some ⟨c.path, plan.destination c⟩)

def steps (plan : Plan) (places : List Nat) (c : Candidate) : Course (Option Record) :=
  (Course.call (.validated c.path)).Then fun accepted =>
    if accepted then
      (Course.call (.madeDirectories (plan.destination c).parent)).Then fun _ =>
      Course.Then (fun events result => ∃ r, Calls places c.path (plan.destination c) events r ∧
        result = toldToolMissing r) (Aftermath plan c)
    else (Remark .warning).Then fun _ => Course.nothing (.ok none)

theorem dispatch_steps (hlength : works.length = places.length) (c : Candidate) :
    Observes id (s.observed.dispatch plan (List.zipWith observedWork places works) c)
      (s.dispatch plan works c) (steps plan places c) := by
  refine (Observes.noted _ _).bind fun accepted => ?_
  cases accepted with
  | false => exact (remark s _ _).bind fun _ => Observes.pure id none
  | true =>
    have hcalls := (runAll c.path (plan.destination c) places works hlength).unlessToolMissing
    refine (Observes.noted _ _).bind fun _ => hcalls.bind fun missing? => ?_
    cases missing? with
    | some d =>
      refine ((remark s _ _).bind fun _ => Observes.pure id none).mono ?_
      rintro events result (⟨⟨⟩⟩ | ⟨⟨⟩, rfl, rfl⟩)
      · exact .toolMissing
      · exact .toolMissing
    | none =>
      refine ((Observes.noted _ _).bind fun _ => Observes.pure id (some _)).mono ?_
      rintro events result (⟨⟨⟩⟩ | ⟨⟨⟩, rfl, rfl⟩)
      · exact .completed
      · exact .completed

theorem dispatch_of_steps {c : Candidate} {events : List Event}
    {result : Except Failure (Option Record)} (h : steps plan places c events result) :
    Dispatch plan places c events result := by
  rcases h with ⟨⟨⟩⟩ | @⟨_, _, accepted, _, ⟨⟩, h⟩
  · exact .unchecked
  · cases accepted with
    | false =>
      rcases h with ⟨⟨⟩⟩ | ⟨⟨⟩, rfl, rfl⟩
      · exact .rejected
      · exact .rejected
    | true =>
      rcases h with ⟨⟨⟩⟩ | ⟨⟨⟩, ⟨r, hcalls, hr⟩ | ⟨⟨r, hcalls, hr⟩, hafter⟩⟩
      · exact .homeless
      · obtain ⟨rfl, hf⟩ := toldToolMissing_eq_error hr.symm
        rcases hcalls with ⟨⟩ | hsplit
        exact .failed hsplit hf
      · rcases toldToolMissing_eq_ok hr.symm with ⟨rfl, rfl⟩ | ⟨d, rfl, rfl⟩
        · cases hcalls
          cases hafter
          exact .completed
        · rcases hcalls with ⟨⟩ | hsplit
          cases hafter
          simpa [through] using Dispatch.toolMissing hsplit

theorem dispatchAll (hlength : works.length = places.length) (cs : List Candidate) :
    Observes id (s.observed.dispatchAll plan (List.zipWith observedWork places works) cs)
      (s.dispatchAll plan works cs)
      (Course.Each Option.toList (Dispatch plan places) cs) := by
  induction cs with
  | nil =>
    refine (Observes.pure id []).mono ?_
    rintro _ _ ⟨rfl, rfl⟩
    exact .done
  | cons c cs ih =>
    have hone := (dispatch_steps s plan hlength c).mono fun _ _ => dispatch_of_steps plan
    refine (hone.bind fun record? => ih.bind fun records =>
      Observes.pure id (record?.toList ++ records)).mono ?_
    intro events result hthen
    exact .cons hthen

theorem assemblies (paths : List Path) :
    Observes id (s.observed.assemblies paths) (s.assemblies paths) (Discovery paths) := by
  induction paths with
  | nil =>
    refine (Observes.pure id []).mono ?_
    rintro _ _ ⟨rfl, rfl⟩
    exact .done
  | cons path rest ih =>
    have hcheck := Observes.noted (.validated path) (s.isAssembly path)
    refine (hcheck.bind fun accepted => ih.bind fun others =>
      Observes.pure id (if accepted then path :: others else others)).mono ?_
    rintro events result (⟨⟨⟩⟩ | ⟨⟨⟩, ⟨h⟩ | ⟨h, rfl, rfl⟩⟩)
    · exact .stopped
    · exact .next h
    · rw [List.append_nil]
      exact .next h

theorem files (root : Input) :
    Observes id (s.observed.files plan root) (s.files plan root)
      (Files plan root.path root.kind) := by
  obtain ⟨path, kind⟩ := root
  cases kind with
  | file =>
    refine (Observes.pure id [path]).mono ?_
    rintro _ _ ⟨rfl, rfl⟩
    exact .file
  | directory =>
    have hsearch := Observes.noted (.searched path plan.pattern) (s.search path plan.pattern)
    refine (hsearch.bind fun found => (remark s _ _).bind fun _ =>
      Observes.pure id (found.mergeSort Path.le)).mono ?_
    rintro events result (⟨⟨⟩⟩ | @⟨_, _, found, _, ⟨⟩, ⟨⟨⟩⟩ | ⟨⟨⟩, rfl, rfl⟩⟩)
    · exact .unsearched
    · exact .directory (List.mergeSort_perm found Path.le) (Path.mergeSort_pairwise found)
    · exact .directory (List.mergeSort_perm found Path.le) (Path.mergeSort_pairwise found)

theorem takeInput (hlength : works.length = places.length) (path : Path) :
    Observes id (s.observed.takeInput plan (List.zipWith observedWork places works) path)
      (s.takeInput plan works path) (Section plan places path) := by
  refine (Observes.noted (.probed path) (s.probe path)).bind fun kind? => ?_
  cases kind? with
  | none => exact Observes.throw id _
  | some kind =>
    exact (remark s _ _).bind fun _ => (files s plan ⟨path, kind⟩).bind fun paths =>
      (assemblies s paths).bind fun accepted =>
        dispatchAll s plan hlength (accepted.map (⟨·, ⟨path, kind⟩⟩))

theorem processAll (hlength : works.length = places.length) (inputs : List Path) :
    Observes id (s.observed.processAll plan (List.zipWith observedWork places works) inputs)
      (s.processAll plan works inputs) (Course.Each id (Section plan places) inputs) := by
  induction inputs with
  | nil =>
    refine (Observes.pure id []).mono ?_
    rintro _ _ ⟨rfl, rfl⟩
    exact .done
  | cons path rest ih =>
    rw [Surroundings.processAll_cons, Surroundings.processAll_cons]
    refine ((takeInput s plan hlength path).bind fun records => ih.bind fun others =>
      Observes.pure id (records ++ others)).mono ?_
    intro events result hthen
    exact .cons hthen

/-- **Runs follow the protocol.** Whatever the surroundings and the stages answer, an
    observed run does what the run itself does, and its events conform. -/
theorem run (stages : List (Stage σ)) (inputs : List Path) :
    Observes id (s.observed.run plan (observedStages stages) inputs)
      (s.run plan stages inputs)
      (Conforms plan (stageOrder stages) inputs) := by
  rw [Surroundings.run, Surroundings.run, inRankOrder_observedStages, inRankOrder_eq]
  have hprepare : Observes (List.zipWith observedWork (stageOrder stages))
      (Stage.prepareAll ((ranked stages).map fun entry => observedStage entry.2 entry.1))
      (Stage.prepareAll ((ranked stages).map (·.1))) (preparation (stageOrder stages)) :=
    prepareAll (ranked stages)
  have hafter (ready : List (StageWork σ))
      (hready : ∃ events, preparation (stageOrder stages) events (.ok ready)) :
      Observes id
        (do
          let records ← s.observed.processAll plan
            (List.zipWith observedWork (stageOrder stages) ready) inputs
          s.observed.log .info ("Disassembled " ++ toString records.length ++ " assembly file(s)")
          return records)
        (do
          let records ← s.processAll plan ready inputs
          s.log .info ("Disassembled " ++ toString records.length ++ " assembly file(s)")
          return records)
        (Sections plan (stageOrder stages) inputs) := by
    obtain ⟨events, hready⟩ := hready
    have hlength := (length_of_preparation hready ready rfl).1
    exact (processAll s plan hlength inputs).bind fun records =>
      (remark s _ _).bind fun _ => Observes.pure id records
  refine (hprepare.bind_of_ok hafter).mono ?_
  rintro events result (⟨hprep⟩ | ⟨hprep, hsections⟩)
  · obtain ⟨done, i, later, hsplit, rfl⟩ := stopped_of_preparation hprep _ rfl
    exact .unprepared hsplit
  · obtain ⟨-, rfl⟩ := length_of_preparation hprep _ rfl
    exact .prepared hsections

end Observes

end ILDump.Pipeline
