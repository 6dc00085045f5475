import ILDump.Proofs.Pipeline.Endings
import Mathlib.Data.List.Induction

/-!
# What a run guarantees

Everything a caller may rely on, about the trace of any run: which course it takes, what
stands before and after every event, how it ends, and that at every moment the files
reported are the files that are finished. Nothing is assumed of the surroundings, of the
stages or of their ranks.
-/

namespace ILDump.Pipeline

variable {α β γ σ : Type} {order : List Nat}

/-! ### Preparation comes first -/

def Event.preparedStage? : Event → Option Nat
  | .prepared i _ => some i
  | _ => none

/-- A kind of course without preparations. -/
def PreparesNothing (p : Course α) : Prop :=
  ∀ events result, p events result → events.filterMap Event.preparedStage? = []

namespace PreparesNothing

theorem of_looks {p : Course α} (hp : OnlyLooks p) : PreparesNothing p := by
  intro events result h
  refine List.filterMap_eq_nil_iff.mpr fun e he => ?_
  have hlook := hp events result h e he
  cases e with
  | prepared => cases hlook
  | _ => rfl

theorem andThen {p : Course α} {q : α → Course β} (hp : PreparesNothing p)
    (hq : ∀ a, PreparesNothing (q a)) : PreparesNothing (p.Then q) := by
  rintro events result (⟨h⟩ | ⟨h, h'⟩)
  · exact hp _ _ h
  · rw [List.filterMap_append, hp _ _ h, hq _ _ _ h', List.nil_append]

theorem each {part : β → List γ} {p : α → Course β} {xs : List α}
    (hp : ∀ x, PreparesNothing (p x)) : PreparesNothing (Course.Each part p xs) := by
  intro events result h
  induction h with
  | done => rfl
  | stopped hx => exact hp _ _ _ hx
  | next hx _ ih => rw [List.filterMap_append, hp _ _ _ hx, ih, List.nil_append]

theorem filterMap_through {done : List Nat} {source destination : Path} :
    (through done source destination).filterMap Event.preparedStage? = [] := by
  rw [through, List.filterMap_append, List.filterMap_map]
  exact List.filterMap_eq_nil_iff.mpr fun _ _ => rfl

theorem dispatch (plan : Plan) (c : Candidate) : PreparesNothing (Dispatch plan order c) := by
  rintro _ _ ⟨⟩ <;> simp [filterMap_through, Event.preparedStage?]

theorem sections (plan : Plan) (inputs : List Path) :
    PreparesNothing (Sections plan order inputs) := by
  refine (each fun path => ?_).andThen fun _ =>
    (of_looks (.remark .info)).andThen fun _ => of_looks (.nothing _)
  refine (of_looks (.probe path)).andThen fun kind? => ?_
  cases kind? with
  | none => exact of_looks (.nothing _)
  | some kind =>
    exact (of_looks (.remark .info)).andThen fun _ =>
      (of_looks (.files plan path kind)).andThen fun paths =>
        (of_looks (.discovery paths)).andThen fun _ => each fun c => dispatch plan c

end PreparesNothing

theorem filterMap_prepared (done : List Nat) :
    (done.map fun i => Event.prepared i (.ok ())).filterMap Event.preparedStage? = done := by
  rw [List.filterMap_map]
  exact List.filterMap_some

/-- **Preparation comes first.** When anything else happens, every stage has been prepared
    once, in the order of the ranks, and none is prepared again. -/
theorem prepared_of_conforms {plan : Plan} {inputs : List Path} {events : List Event}
    {result : Except Failure (List Record)} (h : Conforms plan order inputs events result) :
    ∀ before e after, events = before ++ e :: after → e.preparedStage? = none →
      before.filterMap Event.preparedStage? = order ∧
      after.filterMap Event.preparedStage? = [] := by
  intro before e after heq he
  have hmem : e ∈ events := by simp [heq]
  cases h with
  | unprepared _ =>
    exfalso
    rcases List.mem_append.mp hmem with hmem | hmem
    · obtain ⟨i, -, rfl⟩ := List.mem_map.mp hmem
      cases he
    · rw [List.mem_singleton.mp hmem] at he
      cases he
  | @prepared events result hsections =>
    have hnone := PreparesNothing.sections plan inputs _ _ hsections
    rcases List.append_eq_append_iff.mp heq with ⟨more, rfl, hmore⟩ | ⟨more, hmore, hafter⟩
    · rw [hmore, List.filterMap_append, List.filterMap_cons, he] at hnone
      obtain ⟨hbefore, hafter⟩ := List.append_eq_nil_iff.mp hnone
      rw [List.filterMap_append, filterMap_prepared, hbefore, List.append_nil]
      exact ⟨rfl, hafter⟩
    · cases more with
      | nil =>
        rw [List.append_nil] at hmore
        rw [List.nil_append] at hafter
        rw [← hafter, List.filterMap_cons, he] at hnone
        rw [← hmore, filterMap_prepared]
        exact ⟨rfl, hnone⟩
      | cons e' more =>
        obtain ⟨rfl, -⟩ := List.cons.inj hafter
        have hprep : e ∈ order.map fun i => Event.prepared i (.ok ()) := by simp [hmore]
        obtain ⟨i, -, rfl⟩ := List.mem_map.mp hprep
        cases he

/-! ### Reports keep up -/

/-- The line of a file whose last stage has just done its work. -/
def Event.finishedLine? (last : Nat) : Event → Option String
  | .called i source destination (.ok _) =>
    if i = last then some (Record.line ⟨source, destination⟩) else none
  | _ => none

/-- A file that is finished is reported next, and by nothing else. -/
theorem reportedLine?_of_finished {past opening : List Event} {e e' : Event} {last : Nat}
    {line : String} (hlast : order.getLast? = some last) (he : Allowed order past e)
    (hpast : past = opening ++ [e']) (hline : e'.finishedLine? last = some line) :
    e.reportedLine? = some line := by
  obtain ⟨done, rfl⟩ := List.getLast?_eq_some_iff.mp hlast
  cases e' with
  | called i source destination r =>
    cases r with
    | error f => cases hline
    | ok u =>
      by_cases hi : i = last
      · subst hi
        simp only [Event.finishedLine?, if_true, Option.some.injEq] at hline
        obtain ⟨r, rfl⟩ := he.afterCall opening done i [] source destination rfl hpast
        rw [← hline]
        rfl
      · simp [Event.finishedLine?, hi] at hline
  | _ => cases hline

theorem finished_of_reportedLine? {past : List Event} {e : Event} {last : Nat} {line : String}
    (hlast : order.getLast? = some last) (he : Allowed order past e)
    (hline : e.reportedLine? = some line) :
    ∃ opening e', past = opening ++ [e'] ∧ e'.finishedLine? last = some line := by
  obtain ⟨done, rfl⟩ := List.getLast?_eq_some_iff.mp hlast
  cases e with
  | reported line' r =>
    obtain rfl : line' = line := Option.some.inj hline
    obtain ⟨opening, source, destination, rfl, hpast⟩ := he.report line' r rfl
    rw [through_concat, ← List.append_assoc] at hpast
    exact ⟨_, _, hpast, by simp [Event.finishedLine?]⟩
  | _ => cases hline

theorem reportedLine?_eq {past : List Event} {e : Event} {last : Nat}
    (hlast : order.getLast? = some last) (he : Allowed order past e) :
    e.reportedLine? = past.getLast?.bind (Event.finishedLine? last) := by
  ext line
  rw [Option.bind_eq_some_iff]
  constructor
  · intro hline
    obtain ⟨opening, e', rfl, hline'⟩ := finished_of_reportedLine? hlast he hline
    exact ⟨e', List.getLast?_concat, hline'⟩
  · rintro ⟨e', he', hline⟩
    obtain ⟨opening, hpast⟩ := List.getLast?_eq_some_iff.mp he'
    exact reportedLine?_of_finished hlast he hpast hline

/-- **Reports keep up.** At every moment, the files reported are the files that are finished,
    in the same order, but for one that has only just been finished. By induction on the
    events so far. -/
theorem finished_eq_reported {events : List Event} {last : Nat}
    (hlast : order.getLast? = some last)
    (hallowed : ∀ before e after, events = before ++ e :: after → Allowed order before e) :
    ∀ before after, events = before ++ after →
      before.filterMap (Event.finishedLine? last) =
        before.filterMap Event.reportedLine? ++
          (before.getLast?.bind (Event.finishedLine? last)).toList := by
  intro before
  induction before using List.reverseRecOn with
  | nil => exact fun _ _ => rfl
  | append_singleton before e ih =>
    intro after heq
    rw [List.append_assoc, List.singleton_append] at heq
    have hone (f : Event → Option String) : [e].filterMap f = (f e).toList := by
      cases hf : f e <;> simp [hf]
    rw [List.filterMap_append, List.filterMap_append, ih _ heq, hone, hone, List.getLast?_concat,
      reportedLine?_eq hlast (hallowed before e after heq), Option.bind_some]

/-! ### All guarantees together -/

/-- What holds of the trace of a run and of its end. -/
structure Protocol (plan : Plan) (stages : List (Stage σ)) (order : List Nat)
    (inputs : List Path) (trace : List Event) (result : Except Failure (List Record)) :
    Prop where
  ranks : IsRankOrder stages order
  course : Conforms plan order inputs trace result
  /-- All stages are prepared once, before anything else happens. -/
  preparedFirst : ∀ before e after, trace = before ++ e :: after → e.preparedStage? = none →
    before.filterMap Event.preparedStage? = order ∧
    after.filterMap Event.preparedStage? = []
  /-- Every event is allowed after those before it. -/
  allowed : ∀ before e after, trace = before ++ e :: after → Allowed order before e
  /-- The run does not end between two steps on a file. -/
  calm : Calm trace
  settled : Settled trace result
  upToDate : ∀ last, order.getLast? = some last → ∀ before after, trace = before ++ after →
    before.filterMap (Event.finishedLine? last) =
      before.filterMap Event.reportedLine? ++
        (before.getLast?.bind (Event.finishedLine? last)).toList
  /-- A run that does not end early gives records of the files reported. -/
  records : ∀ records, result = .ok records →
    trace.filterMap Event.reportedLine? = records.map Record.line

/-- **The protocol of a run.** Whatever the surroundings and the stages answer, and in
    whatever state the run starts: observing the run adds its trace and changes nothing
    else, and the trace follows the protocol. -/
theorem Surroundings.run_protocol (s : Surroundings σ) (plan : Plan) (stages : List (Stage σ))
    (inputs : List Path) (start : σ) :
    s.observed.run plan (observedStages stages) inputs ([], start) =
      withTrace id (s.trace plan stages inputs start) (s.run plan stages inputs start) ∧
    Protocol plan stages (stageOrder stages) inputs (s.trace plan stages inputs start)
      (outcome (s.run plan stages inputs start)) := by
  obtain ⟨events, hcourse, hrun⟩ := Observes.run s plan stages inputs [] start
  rw [List.nil_append] at hrun
  have htrace : s.trace plan stages inputs start = events := by
    rw [Surroundings.trace, hrun]
    cases s.run plan stages inputs start <;> rfl
  rw [htrace]
  have horderly := orderly_of_conforms (nodup_stageOrder stages) hcourse
  have hallowed : ∀ before e after, events = before ++ e :: after →
      Allowed (stageOrder stages) before e := by
    simpa using horderly.allowed
  refine ⟨hrun, ?_⟩
  exact {
    ranks := isRankOrder_stageOrder stages
    course := hcourse
    preparedFirst := prepared_of_conforms hcourse
    allowed := hallowed
    calm := by simpa using horderly.calm
    settled := EndsInTime.conforms plan inputs _ _ hcourse
    upToDate := fun last hlast => finished_eq_reported hlast hallowed
    records := by
      intro records hrecords
      rw [hrecords] at hcourse
      exact ReportsAll.conforms plan inputs _ _ hcourse }

end ILDump.Pipeline
