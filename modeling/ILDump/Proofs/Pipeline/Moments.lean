import ILDump.Proofs.Pipeline.Protocol
import Mathlib.Data.List.Basic

/-!
# The moments of a run

Courses say which events make up a run. Seen from a single event, the same protocol says
what has happened before it and what has to come next: no stage is called on a file that
was not accepted twice, none is called out of turn, and a file is reported when its last
stage is done, at once. These are properties of every moment, so they hold of runs that
fail as well.
-/

namespace ILDump.Pipeline

/-! ### Single events -/

/-- Whether something about the same file has to come next. -/
def Event.isOpen : Event → Bool
  | .madeDirectories _ (.ok _) => true
  | .called _ _ _ (.ok _) => true
  | _ => false

/-- Whether something has to be done before an event. -/
def Event.isGuarded : Event → Bool
  | .called .. => true
  | .reported .. => true
  | _ => false

/-- What has to come next for a file with some stages left: the call of the next one, or the
    report. -/
def IsNext (source destination : Path) : List Nat → Event → Prop
  | [], e => ∃ r, e = .reported (Record.line ⟨source, destination⟩) r
  | i :: _, e => ∃ r, e = .called i source destination r

/-- What an event says about those before it. -/
structure Allowed (order : List Nat) (past : List Event) (e : Event) : Prop where
  /-- A stage is called on a file after the file was accepted, accepted again, given a
      directory and taken through the stages in front, with nothing in between. -/
  call : ∀ i source destination r, e = .called i source destination r →
    ∃ opening done later, order = done ++ i :: later ∧
      past = opening ++ through done source destination ∧
      .validated source (.ok true) ∈ opening
  /-- A file is reported right after it went through all stages. -/
  report : ∀ line r, e = .reported line r →
    ∃ opening source destination, line = Record.line ⟨source, destination⟩ ∧
      past = opening ++ through order source destination
  /-- A stage that did its work is followed by the next one, the last one by the report. -/
  afterCall : ∀ opening done i later source destination, order = done ++ i :: later →
    past = opening ++ [.called i source destination (.ok ())] →
    IsNext source destination later e
  /-- A directory is made for a file that the first stage is called on next. -/
  afterDirectories : ∀ opening path, past = opening ++ [.madeDirectories path (.ok ())] →
    ∃ source destination, path = destination.parent ∧ IsNext source destination order e

/-- The last event leaves nothing open. -/
def Calm (past : List Event) : Prop :=
  ∀ opening e, past = opening ++ [e] → e.isOpen = false

/-- Every event is allowed after those before it, and nothing is left open. -/
def Orderly (order : List Nat) : List Event → List Event → Prop
  | past, [] => Calm past
  | past, e :: events => Allowed order past e ∧ Orderly order (past ++ [e]) events

/-! ### Orderly parts -/

variable {α β γ : Type} {order : List Nat} {past : List Event}

theorem calm_nil : Calm [] := by
  intro opening e h
  simp at h

theorem calm_concat {e : Event} (he : e.isOpen = false) : Calm (past ++ [e]) := by
  intro opening e' h
  obtain ⟨-, h⟩ := List.append_inj' h rfl
  rw [List.singleton_inj] at h
  rwa [← h]

namespace Orderly

theorem calm : ∀ {past events : List Event}, Orderly order past events → Calm (past ++ events)
  | past, [], h => by rwa [List.append_nil]
  | past, e :: events, ⟨_, h⟩ => by simpa using calm h

theorem append : ∀ {past events events' : List Event}, Orderly order past events →
    Orderly order (past ++ events) events' → Orderly order past (events ++ events')
  | past, [], events', _, h' => by simpa using h'
  | past, e :: events, events', ⟨he, h⟩, h' => by
    refine ⟨he, append h ?_⟩
    simpa using h'

theorem allowed : ∀ {past events : List Event}, Orderly order past events →
    ∀ before e after, events = before ++ e :: after → Allowed order (past ++ before) e
  | past, [], _, before, e, after, h => by simp at h
  | past, e :: events, ⟨he, h⟩, before, e', after, heq => by
    cases before with
    | nil =>
      obtain ⟨rfl, rfl⟩ := List.cons.inj heq
      simpa using he
    | cons b before =>
      obtain ⟨rfl, htail⟩ := List.cons.inj heq
      simpa using allowed h before e' after htail

end Orderly

/-- Where nothing is open, whatever needs nothing before it is allowed. -/
theorem allowed_of_calm {e : Event} (hcalm : Calm past) (he : e.isGuarded = false) :
    Allowed order past e where
  call := by
    rintro i source destination r rfl
    simp [Event.isGuarded] at he
  report := by
    rintro line r rfl
    simp [Event.isGuarded] at he
  afterCall := by
    intro opening done i later source destination _ hpast
    have hopen := hcalm opening _ hpast
    simp [Event.isOpen] at hopen
  afterDirectories := by
    intro opening path hpast
    have hopen := hcalm opening _ hpast
    simp [Event.isOpen] at hopen

theorem orderly_of_calm : ∀ {past events : List Event}, Calm past →
    (∀ e ∈ events, e.isGuarded = false ∧ e.isOpen = false) → Orderly order past events
  | past, [], hcalm, _ => hcalm
  | past, e :: events, hcalm, hquiet => by
    obtain ⟨hguarded, hopen⟩ := hquiet e (by simp)
    refine ⟨allowed_of_calm hcalm hguarded, orderly_of_calm (calm_concat hopen) ?_⟩
    intro e' he'
    exact hquiet e' (by simp [he'])

/-! ### Looking at the inputs -/

/-- Whether an event does no more than look at the inputs and tell of them. -/
def Event.isLook : Event → Bool
  | .probed .. => true
  | .searched .. => true
  | .validated .. => true
  | .logged .. => true
  | _ => false

theorem Event.quiet_of_isLook {e : Event} (h : e.isLook = true) :
    e.isGuarded = false ∧ e.isOpen = false := by
  cases e with
  | probed | searched | validated | logged => exact ⟨rfl, rfl⟩
  | prepared | madeDirectories | called | reported => cases h

/-- A kind of course in which the inputs are only looked at. -/
def OnlyLooks (p : Course α) : Prop :=
  ∀ events result, p events result → ∀ e ∈ events, e.isLook = true

namespace OnlyLooks

theorem nothing (result : Except Failure α) : OnlyLooks (Course.nothing result) := by
  rintro _ _ ⟨rfl, -⟩
  simp

theorem probe (path : Path) : OnlyLooks (Course.call (.probed path)) := by
  rintro _ _ rfl
  simp [Event.isLook]

theorem remark (level : LogLevel) : OnlyLooks (Remark level) := by
  rintro _ _ ⟨⟩
  simp [Event.isLook]

theorem files (plan : Plan) (path : Path) (kind : InputKind) :
    OnlyLooks (Files plan path kind) := by
  rintro _ _ ⟨⟩ <;> simp [Event.isLook]

theorem discovery (paths : List Path) : OnlyLooks (Discovery paths) := by
  intro events result h
  induction h with
  | done => simp
  | stopped => simp [Event.isLook]
  | next _ ih => exact List.forall_mem_cons.mpr ⟨rfl, ih⟩

end OnlyLooks

/-! ### One file -/

section File

variable {opening : List Event} {source destination : Path}

theorem through_nil :
    through [] source destination =
      [.validated source (.ok true)] ++ [.madeDirectories destination.parent (.ok ())] :=
  rfl

theorem through_concat (done : List Nat) (i : Nat) :
    through (done ++ [i]) source destination =
      through done source destination ++ [.called i source destination (.ok ())] := by
  simp [through]

/-- A file that went through some stages is taken to the next one, or reported. -/
theorem allowed_of_isNext {done later : List Nat} {e : Event} (hnodup : order.Nodup)
    (hsplit : order = done ++ later) (hmem : .validated source (.ok true) ∈ opening)
    (hnext : IsNext source destination later e) :
    Allowed order (opening ++ through done source destination) e where
  call := by
    rintro i source' destination' r rfl
    cases later with
    | nil =>
      obtain ⟨r, hr⟩ := hnext
      cases hr
    | cons j later =>
      obtain ⟨r, hr⟩ := hnext
      cases hr
      exact ⟨opening, done, later, hsplit, rfl, hmem⟩
  report := by
    rintro line r rfl
    cases later with
    | nil =>
      obtain ⟨r, hr⟩ := hnext
      cases hr
      rw [hsplit, List.append_nil]
      exact ⟨opening, source, destination, rfl, rfl⟩
    | cons j later =>
      obtain ⟨r, hr⟩ := hnext
      cases hr
  afterCall := by
    intro opening' done' i later' source' destination' hsplit' hpast
    rcases List.eq_nil_or_concat done with rfl | ⟨done, j, rfl⟩
    · rw [through_nil, ← List.append_assoc] at hpast
      obtain ⟨-, hlast⟩ := List.append_inj' hpast rfl
      cases hlast
    · rw [List.concat_eq_append] at hpast hsplit
      rw [through_concat, ← List.append_assoc] at hpast
      obtain ⟨-, hlast⟩ := List.append_inj' hpast rfl
      cases hlast
      -- the places are different, so a stage stands at one place of the order only
      have hlater : later = later' := by
        rw [List.append_assoc, List.singleton_append] at hsplit
        rw [hsplit] at hsplit' hnodup
        obtain ⟨-, hlater, hdone⟩ := List.nodup_append.mp hnodup
        refine ((List.append_cons_inj_of_notMem ?_ ?_).mp hsplit').2.2
        · intro hi
          exact hdone i hi i (by simp) rfl
        · exact (List.nodup_cons.mp hlater).1
      rwa [← hlater]
  afterDirectories := by
    intro opening' path hpast
    rcases List.eq_nil_or_concat done with rfl | ⟨done, j, rfl⟩
    · rw [through_nil, ← List.append_assoc] at hpast
      obtain ⟨-, hlast⟩ := List.append_inj' hpast rfl
      cases hlast
      exact ⟨source, destination, rfl, hsplit ▸ hnext⟩
    · rw [List.concat_eq_append, through_concat, ← List.append_assoc] at hpast
      obtain ⟨-, hlast⟩ := List.append_inj' hpast rfl
      cases hlast

/-- Taking a file through the stages that are left, up to an event that comes next. -/
theorem orderly_calls (hnodup : order.Nodup) (hmem : .validated source (.ok true) ∈ opening)
    {e : Event} {tail : List Event} {later : List Nat}
    (hnext : IsNext source destination later e) (he : e.isOpen = false)
    (htail : ∀ e ∈ tail, e.isGuarded = false ∧ e.isOpen = false) :
    ∀ done todo, order = done ++ (todo ++ later) →
      Orderly order (opening ++ through done source destination)
        ((todo.map fun i => .called i source destination (.ok ())) ++ e :: tail)
  | done, [], hsplit =>
    ⟨allowed_of_isNext hnodup hsplit hmem hnext, orderly_of_calm (calm_concat he) htail⟩
  | done, i :: todo, hsplit => by
    refine ⟨allowed_of_isNext hnodup hsplit hmem ⟨_, rfl⟩, ?_⟩
    have hrest := orderly_calls hnodup hmem hnext he htail (done ++ [i]) todo
      (by simpa using hsplit)
    rwa [through_concat, ← List.append_assoc] at hrest

/-- A file that is accepted again and taken through some stages, up to an event that comes
    next. -/
theorem orderly_through (hnodup : order.Nodup) (hcalm : Calm opening)
    (hmem : .validated source (.ok true) ∈ opening) {e : Event} {tail : List Event}
    {done later : List Nat} (hsplit : order = done ++ later)
    (hnext : IsNext source destination later e) (he : e.isOpen = false)
    (htail : ∀ e ∈ tail, e.isGuarded = false ∧ e.isOpen = false) :
    Orderly order opening (through done source destination ++ e :: tail) := by
  have hrecheck : Calm (opening ++ [.validated source (.ok true)]) := calm_concat rfl
  have hcalls := orderly_calls hnodup hmem hnext he htail [] done hsplit
  rw [through_nil, ← List.append_assoc] at hcalls
  exact ⟨allowed_of_calm hcalm rfl, allowed_of_calm hrecheck rfl, hcalls⟩

/-- Whatever way a dispatch goes, it is orderly if the file was accepted before. -/
theorem orderly_dispatch {plan : Plan} {c : Candidate} {events : List Event}
    {result : Except Failure (Option Record)} (hnodup : order.Nodup) (hcalm : Calm past)
    (hmem : .validated c.path (.ok true) ∈ past) (h : Dispatch plan order c events result) :
    Orderly order past events := by
  cases h with
  | unchecked => exact orderly_of_calm hcalm (by simp [Event.isGuarded, Event.isOpen])
  | rejected => exact orderly_of_calm hcalm (by simp [Event.isGuarded, Event.isOpen])
  | homeless => exact orderly_of_calm hcalm (by simp [Event.isGuarded, Event.isOpen])
  | toolMissing hsplit =>
    exact orderly_through hnodup hcalm hmem hsplit ⟨_, rfl⟩ rfl
      (by simp [Event.isGuarded, Event.isOpen])
  | failed hsplit _ =>
    exact orderly_through hnodup hcalm hmem hsplit ⟨_, rfl⟩ rfl (by simp)
  | completed =>
    exact orderly_through hnodup hcalm hmem (List.append_nil order).symm ⟨_, rfl⟩ rfl (by simp)

end File

/-! ### Whole runs -/

/-- If each entry has an orderly course wherever nothing is open, so have all together. -/
theorem orderly_each {part : β → List γ} {p : α → Course β} {xs : List α} {events : List Event}
    {result : Except Failure (List γ)} (h : Course.Each part p xs events result)
    (hp : ∀ x ∈ xs, ∀ more events result, Calm (past ++ more) → p x events result →
      Orderly order (past ++ more) events) :
    ∀ more, Calm (past ++ more) → Orderly order (past ++ more) events := by
  induction h with
  | done =>
    intro more hcalm
    exact hcalm
  | @stopped x xs events f hx =>
    intro more hcalm
    exact hp x (by simp) more events _ hcalm hx
  | @next x xs before after y result hx _ ih =>
    intro more hcalm
    have hhead := hp x (by simp) more before _ hcalm hx
    refine hhead.append ?_
    have htail := ih (fun x hx => hp x (by simp [hx])) (more ++ before)
    rw [← List.append_assoc] at htail
    exact htail hhead.calm

/-- What is kept of the files was accepted. -/
theorem accepted_of_discovery {paths : List Path} {events : List Event}
    {result : Except Failure (List Path)} (h : Discovery paths events result) :
    ∀ accepted, result = .ok accepted → ∀ path ∈ accepted, .validated path (.ok true) ∈ events := by
  induction h with
  | done =>
    rintro accepted ⟨⟩ path hpath
    cases hpath
  | stopped =>
    rintro accepted ⟨⟩
  | @next path rest verdict events result _ ih =>
    intro accepted haccepted path' hpath'
    cases result with
    | error f => cases haccepted
    | ok others =>
      cases haccepted
      cases verdict with
      | false => exact List.mem_cons_of_mem _ (ih others rfl path' hpath')
      | true =>
        rcases List.mem_cons.mp hpath' with rfl | hpath'
        · exact List.mem_cons_self
        · exact List.mem_cons_of_mem _ (ih others rfl path' hpath')

/-- A kind of course that is orderly wherever nothing is open. -/
def KeepsOrder (order : List Nat) (p : Course α) : Prop :=
  ∀ past events result, Calm past → p events result → Orderly order past events

namespace KeepsOrder

theorem of_looks {p : Course α} (hp : OnlyLooks p) : KeepsOrder order p := by
  intro past events result hcalm h
  exact orderly_of_calm hcalm fun e he => Event.quiet_of_isLook (hp events result h e he)

theorem andThen {p : Course α} {q : α → Course β} (hp : KeepsOrder order p)
    (hq : ∀ a, KeepsOrder order (q a)) : KeepsOrder order (p.Then q) := by
  rintro past events result hcalm (⟨h⟩ | ⟨h, h'⟩)
  · exact hp past _ _ hcalm h
  · have hbefore := hp past _ _ hcalm h
    exact hbefore.append (hq _ _ _ _ hbefore.calm h')

theorem each {part : β → List γ} {p : α → Course β} {xs : List α}
    (hp : ∀ x, KeepsOrder order (p x)) : KeepsOrder order (Course.Each part p xs) := by
  intro past events result hcalm h
  have hall : ∀ more, Calm ([] ++ more) → Orderly order ([] ++ more) events :=
    orderly_each h fun x _ more events result hcalm hx => hp x _ events result hcalm hx
  exact hall past hcalm

/-- Files are dispatched after all of them were checked, and only those that were
    accepted. -/
theorem dispatches (plan : Plan) (root : Input) (paths : List Path) (hnodup : order.Nodup) :
    KeepsOrder order ((Discovery paths).Then fun accepted =>
      Course.Each Option.toList (Dispatch plan order) (accepted.map (⟨·, root⟩))) := by
  have hchecks : KeepsOrder order (Discovery paths) := of_looks (.discovery paths)
  rintro past events result hcalm (⟨h⟩ | @⟨before, after, accepted, _, h, h'⟩)
  · exact hchecks past _ _ hcalm h
  · have hbefore : Orderly order past before := hchecks past _ _ hcalm h
    have hafter : ∀ more, Calm (past ++ before ++ more) →
        Orderly order (past ++ before ++ more) after := by
      refine orderly_each h' fun c hc more events result hcalm hdispatch => ?_
      obtain ⟨path, hpath, rfl⟩ := List.mem_map.mp hc
      have hmem : Event.validated path (.ok true) ∈ before :=
        accepted_of_discovery h accepted rfl path hpath
      exact orderly_dispatch hnodup hcalm (by simp [hmem]) hdispatch
    refine hbefore.append ?_
    simpa using hafter [] (by simpa using hbefore.calm)

theorem input (plan : Plan) (path : Path) (hnodup : order.Nodup) :
    KeepsOrder order (Section plan order path) := by
  refine (of_looks (.probe path)).andThen fun kind? => ?_
  cases kind? with
  | none => exact of_looks (.nothing _)
  | some kind =>
    exact (of_looks (.remark .info)).andThen fun _ =>
      (of_looks (.files plan path kind)).andThen fun paths =>
        dispatches plan ⟨path, kind⟩ paths hnodup

theorem sections (plan : Plan) (inputs : List Path) (hnodup : order.Nodup) :
    KeepsOrder order (Sections plan order inputs) :=
  (each fun path => input plan path hnodup).andThen fun _ =>
    (of_looks (.remark .info)).andThen fun _ => of_looks (.nothing _)

end KeepsOrder

/-- **Every event of a run is allowed where it stands**, and a run ends with nothing
    open. -/
theorem orderly_of_conforms {plan : Plan} {inputs : List Path} {events : List Event}
    {result : Except Failure (List Record)} (hnodup : order.Nodup)
    (h : Conforms plan order inputs events result) : Orderly order [] events := by
  have hprepared (done : List Nat) :
      Orderly order [] (done.map fun i => .prepared i (.ok ())) :=
    orderly_of_calm calm_nil (by simp [Event.isGuarded, Event.isOpen])
  cases h with
  | unprepared _ =>
    refine (hprepared _).append (orderly_of_calm (hprepared _).calm ?_)
    simp [Event.isGuarded, Event.isOpen]
  | prepared hsections =>
    refine (hprepared order).append ?_
    exact KeepsOrder.sections plan inputs hnodup _ _ _ (hprepared order).calm hsections

end ILDump.Pipeline
