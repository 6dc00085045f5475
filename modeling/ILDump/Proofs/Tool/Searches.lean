import ILDump.Tool.Basic
import ILDump.Proofs.Workspace.Questions

/-!
# Looking for the tool

The surroundings of the tool may change at any time: files come and go, the working
directory and the search path become others, and a program that is started may end in any
way. A `World` answers every question as it likes, knowing all that was asked before. So
there is no answer that two questions have to share, and what is proved for all worlds
holds whatever happens between two questions.

A search asks a few questions in a fixed order; `Search` tells which ones, and what comes of
it. An answer may also be that nothing can be told, and then the search has come to its end.
A tool whose place is known is not looked for, which makes a `Finding` without questions.
-/

namespace ILDump.Tool

/-- A question to the surroundings, or a start of a program, with what came of it. -/
inductive Event where
  | located (cwd : Except DiskError Path)
  | checked (p : Path) (isFile : Except DiskError Bool)
  | searched (name : String) (found? : Except DiskError (Option String))
  | started (command : List String) (limit? : Option Int) (result : ProgramEnd)

namespace Event

def isSearch : Event → Bool
  | searched _ _ => true
  | _ => false

/-- What a look along the search path has found. -/
def found? : Event → Option String
  | searched _ (.ok found?) => found?
  | _ => none

/-- The failure for a question that could not be answered. -/
def trouble? : Event → Option Failure
  | located (.error e) => some (.astray e)
  | checked p (.error e) => some (.disk e p.text)
  | searched name (.error e) => some (.disk e name)
  | _ => none

end Event

structure World where
  cwd : List Event → Except DiskError Path
  isFile : List Event → Path → Except DiskError Bool
  findOnSearchPath : List Event → String → Except DiskError (Option String)
  start : List Event → List String → Option Int → ProgramEnd

/-- The world as surroundings of the tool, which write down what happens. -/
def World.host (w : World) : ToolHost (List Event) where
  cwd past := leaving ((w.cwd past).mapError .astray) (past ++ [.located (w.cwd past)])
  isFile p past :=
    leaving ((w.isFile past p).mapError (.disk · p.text)) (past ++ [.checked p (w.isFile past p)])
  findOnSearchPath name past :=
    leaving ((w.findOnSearchPath past name).mapError (.disk · name))
      (past ++ [.searched name (w.findOnSearchPath past name)])
  start command limit? past :=
    .ok (w.start past command limit?)
      (past ++ [.started command limit? (w.start past command limit?)])
  log _ _ past := .ok () past

section Answers

variable (w : World) (s : Tool × List Event)

theorem cwd_eq :
    w.host.cwd.onSecond s =
      leaving ((w.cwd s.2).mapError .astray) (s.1, s.2 ++ [.located (w.cwd s.2)]) :=
  Work.onSecond_of_leaving rfl

theorem isFile_eq (p : Path) :
    (w.host.isFile p).onSecond s =
      leaving ((w.isFile s.2 p).mapError (.disk · p.text))
        (s.1, s.2 ++ [.checked p (w.isFile s.2 p)]) :=
  Work.onSecond_of_leaving rfl

theorem findOnSearchPath_eq (name : String) :
    (w.host.findOnSearchPath name).onSecond s =
      leaving ((w.findOnSearchPath s.2 name).mapError (.disk · name))
        (s.1, s.2 ++ [.searched name (w.findOnSearchPath s.2 name)]) :=
  Work.onSecond_of_leaving rfl

theorem start_eq (command : List String) (limit? : Option Int) :
    (w.host.start command limit?).onSecond s =
      .ok (w.start s.2 command limit?)
        (s.1, s.2 ++ [.started command limit? (w.start s.2 command limit?)]) := rfl

end Answers

/-! ### Searches -/

/-- Looks along the search path for one name after the other, until one is found. -/
inductive Along : List String → List Event → Except Failure (Option Path) → Prop where
  | nowhere : Along [] [] (.ok none)
  | here {name found : String} {rest : List String} :
    Along (name :: rest) [.searched name (.ok (some found))] (.ok (some (Path.ofString found)))
  | later {name : String} {rest : List String} {asked : List Event}
    {r : Except Failure (Option Path)} :
    Along rest asked r → Along (name :: rest) (.searched name (.ok none) :: asked) r
  | unsearched {name : String} {rest : List String} (e : DiskError) :
    Along (name :: rest) [.searched name (.error e)] (.error (.disk e name))

/-- The questions of a search and what comes of it, for a tool with or without a configured
    place. -/
inductive Search : Option Path → List Event → Except Failure (Option Path) → Prop where
  | configured (p : Path) (isFile : Bool) :
    Search (some p) [.checked p (.ok isFile)] (.ok (if isFile then some p else none))
  | unchecked (p : Path) (e : DiskError) :
    Search (some p) [.checked p (.error e)] (.error (.disk e p.text))
  | astray (e : DiskError) : Search none [.located (.error e)] (.error (.astray e))
  | unseen (cwd : Path) (e : DiskError) :
    Search none [.located (.ok cwd), .checked (cwd.child programName) (.error e)]
      (.error (.disk e (cwd.child programName).text))
  | beside (cwd : Path) :
    Search none [.located (.ok cwd), .checked (cwd.child programName) (.ok true)]
      (.ok (some (cwd.child programName)))
  | along {cwd : Path} {asked : List Event} {r : Except Failure (Option Path)} :
    Along searchedNames asked r → r ≠ .ok none →
    Search none (.located (.ok cwd) :: .checked (cwd.child programName) (.ok false) :: asked) r
  /-- The working directory is asked for once more, to be told of. -/
  | nowhere (cwd : Path) (again : Except DiskError Path) {asked : List Event} :
    Along searchedNames asked (.ok none) →
    Search none
      (.located (.ok cwd) :: .checked (cwd.child programName) (.ok false) ::
        (asked ++ [.located again]))
      ((again.mapError .astray).map fun _ => none)

/-- A search, unless the place is known. -/
inductive Finding (configured? : Option Path) :
    Option Path → List Event → Except Failure (Option Path) → Prop where
  | known (p : Path) : Finding configured? (some p) [] (.ok (some p))
  | searched {asked : List Event} {r : Except Failure (Option Path)} :
    Search configured? asked r → Finding configured? none asked r

/-- The place that a search has come to. -/
def placeFound? (r : Except Failure (Option Path)) : Option Path :=
  r.toOption.join

@[simp]
theorem placeFound?_ok (found? : Option Path) : placeFound? (.ok found?) = found? := rfl

@[simp]
theorem placeFound?_error (f : Failure) : placeFound? (.error f) = none := rfl

theorem Along.found?_eq {names : List String} {asked : List Event}
    {r : Except Failure (Option Path)} (h : Along names asked r) :
    (asked.findSome? Event.found?).map Path.ofString = placeFound? r := by
  induction h with
  | nowhere | here | unsearched => rfl
  | later _ ih => exact ih

/-! ### Starts and troubles -/

section

variable {configured? known? : Option Path} {asked : List Event} {r : Except Failure (Option Path)}
  {command : List String} {limit? : Option Int} {result : ProgramEnd}

theorem Along.not_started {names : List String} (h : Along names asked r) :
    .started command limit? result ∉ asked := by
  induction h with
  | nowhere => simp
  | here => simp
  | later _ ih => simpa using ih
  | unsearched e => simp

theorem Search.not_started (h : Search configured? asked r) :
    .started command limit? result ∉ asked := by
  cases h with
  | along halong => simpa using halong.not_started
  | nowhere cwd again halong => simpa using halong.not_started
  | _ => simp

theorem Finding.not_started (h : Finding configured? known? asked r) :
    .started command limit? result ∉ asked := by
  cases h with
  | known p => simp
  | searched hsearch => exact hsearch.not_started

end

/-- A question that could not be answered was the last one, and the work failed with it. It
    failed with nothing else but a missing tool. -/
structure Decided {α : Type} (asked : List Event) (r : Except Failure α) : Prop where
  failure : ∀ {f}, r = .error f →
    (∃ searched, f = missing searched) ∨ asked.getLast?.bind Event.trouble? = some f
  trouble : ∀ {opening event rest f}, asked = opening ++ event :: rest →
    event.trouble? = some f → rest = [] ∧ r = .error f

namespace Decided

variable {α : Type} {asked more : List Event} {r : Except Failure α}

theorem of_answered (hanswered : ∀ event ∈ asked, event.trouble? = none)
    (hr : ∀ f, r = .error f → ∃ searched, f = missing searched) : Decided asked r where
  failure hf := .inl (hr _ hf)
  trouble heq htrouble := by simp [hanswered _ (heq ▸ List.mem_append_cons_self)] at htrouble

theorem of_trouble {event : Event} {f : Failure} (htrouble : event.trouble? = some f) :
    Decided [event] (.error f : Except Failure α) where
  failure hf := by
    cases hf
    exact .inr htrouble
  trouble := by
    intro opening event' rest f' heq htrouble'
    obtain ⟨rfl, rfl, rfl⟩ : opening = [] ∧ event' = event ∧ rest = [] := by
      cases opening <;> simp_all
    exact ⟨rfl, congrArg _ (Option.some.inj (htrouble.symm.trans htrouble'))⟩

/-- As long as all is answered, more may be asked. -/
theorem append (hanswered : ∀ event ∈ asked, event.trouble? = none) (h : Decided more r) :
    Decided (asked ++ more) r where
  failure hf := by
    refine (h.failure hf).imp_right fun hlast => ?_
    cases hmore : more.getLast? with
    | none => simp [hmore] at hlast
    | some last => simpa [List.getLast?_append, hmore] using hlast
  trouble := by
    intro opening event rest f heq htrouble
    obtain ⟨middle, -, hmore⟩ | ⟨middle, hasked, hmiddle⟩ := List.append_eq_append_iff.mp heq
    · exact h.trouble hmore htrouble
    · cases middle with
      | nil =>
        have hmore : more = [] ++ event :: rest := hmiddle.symm
        exact h.trouble hmore htrouble
      | cons first middle =>
        -- an event of the first part, where there was no trouble
        obtain ⟨rfl, -⟩ := List.cons.inj hmiddle
        simp [hanswered event (by simp [hasked])] at htrouble

theorem cons {event : Event} (hanswered : event.trouble? = none) (h : Decided more r) :
    Decided (event :: more) r := by
  have hone : ∀ e ∈ [event], e.trouble? = none := by simpa using hanswered
  exact append hone h

theorem congr {β : Type} {r' : Except Failure β} (h : Decided asked r)
    (hr : ∀ f, r' = .error f ↔ r = .error f) : Decided asked r' where
  failure hf := h.failure ((hr _).mp hf)
  trouble heq htrouble := (h.trouble heq htrouble).imp_right (hr _).mpr

theorem answered {a : α} (h : Decided asked (.ok a)) : ∀ event ∈ asked, event.trouble? = none := by
  intro event hevent
  obtain ⟨opening, rest, heq⟩ := List.append_of_mem hevent
  refine Option.eq_none_iff_forall_ne_some.mpr fun f htrouble => ?_
  obtain ⟨-, hf⟩ := h.trouble heq htrouble
  cases hf

end Decided

section

variable {configured? known? : Option Path} {asked : List Event} {r : Except Failure (Option Path)}

theorem Along.decided {names : List String} (h : Along names asked r) : Decided asked r := by
  induction h with
  | nowhere => exact .of_answered (by simp) nofun
  | here => exact .of_answered (by simp [Event.trouble?]) nofun
  | later _ ih => exact .cons rfl ih
  | unsearched e => exact .of_trouble rfl

theorem Search.decided (h : Search configured? asked r) : Decided asked r := by
  cases h with
  | configured p isFile => exact .of_answered (by simp [Event.trouble?]) nofun
  | unchecked p e => exact .of_trouble rfl
  | astray e => exact .of_trouble rfl
  | unseen cwd e => exact .cons rfl (.of_trouble rfl)
  | beside cwd => exact .of_answered (by simp [Event.trouble?]) nofun
  | along halong => exact .cons rfl (.cons rfl halong.decided)
  | nowhere cwd again halong =>
    refine .cons rfl (.cons rfl (.append halong.decided.answered ?_))
    cases again with
    | ok cwd => exact .of_answered (by simp [Event.trouble?]) nofun
    | error e => exact .of_trouble rfl

theorem Finding.decided (h : Finding configured? known? asked r) : Decided asked r := by
  cases h with
  | known p => exact .of_answered (by simp) nofun
  | searched hsearch => exact hsearch.decided

end

/-! ### What the tool does -/

section

variable (w : World) (configured? : Option Path) (limit? : Option Int)

theorem findAlong_along :
    ∀ (names : List String) (past : List Event), ∃ asked r, Along names asked r ∧
      findAlong w.host names (⟨configured?, limit?, none⟩, past) =
        leaving r (⟨configured?, limit?, placeFound? r⟩, past ++ asked)
  | [], past => ⟨[], .ok none, .nowhere, by rw [List.append_nil]; rfl⟩
  | name :: rest, past => by
    unfold findAlong
    rw [bind_eq_of_leaving (findOnSearchPath_eq w _ name)]
    cases w.findOnSearchPath past name with
    | error e => exact ⟨_, _, .unsearched e, rfl⟩
    | ok found? =>
      cases found? with
      | some found => exact ⟨_, _, .here, rfl⟩
      | none =>
        obtain ⟨asked, r, halong, heq⟩ :=
          findAlong_along rest (past ++ [.searched name (.ok none)])
        rw [List.append_assoc] at heq
        exact ⟨.searched name (.ok none) :: asked, r, .later halong, heq⟩

theorem find_search (past : List Event) :
    ∃ asked r, Search configured? asked r ∧
      find w.host (⟨configured?, limit?, none⟩, past) =
        leaving r (⟨configured?, limit?, placeFound? r⟩, past ++ asked) := by
  unfold find candidate
  rw [get_bind]
  cases configured? with
  | some here =>
    simp only [pure_bind]
    rw [bind_eq_of_leaving (isFile_eq w _ here)]
    cases w.isFile past here with
    | error e => exact ⟨_, _, .unchecked here e, rfl⟩
    | ok isFile =>
      cases isFile with
      | true => exact ⟨_, _, .configured here true, rfl⟩
      | false => exact ⟨_, _, .configured here false, rfl⟩
  | none =>
    simp only [bind_assoc, pure_bind]
    rw [bind_eq_of_leaving (cwd_eq w _)]
    dsimp only
    generalize w.cwd past = located
    cases located with
    | error e => exact ⟨_, _, .astray e, rfl⟩
    | ok cwd =>
    dsimp only [Except.mapError]
    rw [bind_eq_of_leaving (isFile_eq w _ _)]
    simp only [List.append_assoc, List.cons_append, List.nil_append]
    generalize w.isFile (past ++ [.located (.ok cwd)]) (cwd.child programName) = checked
    cases checked with
    | error e => exact ⟨_, _, .unseen cwd e, rfl⟩
    | ok isFile =>
    cases isFile with
    | true => exact ⟨_, _, .beside cwd, rfl⟩
    | false =>
      obtain ⟨asked, r, halong, heq⟩ := findAlong_along w none limit? searchedNames
        (past ++ [.located (.ok cwd), .checked (cwd.child programName) (.ok false)])
      simp only [Except.mapError, Bool.false_eq_true, if_false]
      rw [bind_eq_of_leaving heq, List.append_assoc]
      rcases r with f | _ | p
      · exact ⟨_, _, .along halong nofun, rfl⟩
      · refine ⟨_, _, .nowhere cwd (w.cwd (past ++ ([.located (.ok cwd),
          .checked (cwd.child programName) (.ok false)] ++ asked))) halong, ?_⟩
        refine (bind_eq_of_leaving (cwd_eq w _)).trans ?_
        rw [List.append_assoc past, List.append_assoc _ asked]
        dsimp only
        cases w.cwd _ <;> rfl
      · exact ⟨_, _, .along halong nofun, rfl⟩

theorem find_finding (known? : Option Path) (past : List Event) :
    ∃ asked r, Finding configured? known? asked r ∧
      find w.host (⟨configured?, limit?, known?⟩, past) =
        leaving r (⟨configured?, limit?, placeFound? r⟩, past ++ asked) := by
  cases known? with
  | some p => exact ⟨[], .ok (some p), .known p, by rw [List.append_nil]; rfl⟩
  | none =>
    obtain ⟨asked, r, hsearch, heq⟩ := find_search w configured? limit? past
    exact ⟨asked, r, .searched hsearch, heq⟩

/-- The tool is looked for, and has to be there. To tell where it was looked for, the working
    directory may be asked for once more. -/
inductive Preparation (configured? known? : Option Path) :
    List Event → Except Failure Path → Prop where
  | found {asked : List Event} {p : Path} :
    Finding configured? known? asked (.ok (some p)) → Preparation configured? known? asked (.ok p)
  | fails {asked : List Event} {f : Failure} :
    Finding configured? known? asked (.error f) → Preparation configured? known? asked (.error f)
  | misses {asked : List Event} (again : List Event) (searched : List String) :
    Finding configured? known? asked (.ok none) →
    (∀ event ∈ again, ∃ cwd, event = .located (.ok cwd)) →
    Preparation configured? known? (asked ++ again) (.error (missing searched))
  | lost {asked : List Event} (e : DiskError) :
    Finding configured? known? asked (.ok none) →
    Preparation configured? known? (asked ++ [.located (.error e)]) (.error (.astray e))

theorem prepare_preparation (known? : Option Path) (past : List Event) :
    ∃ asked r, Preparation configured? known? asked r ∧
      prepare w.host (⟨configured?, limit?, known?⟩, past) =
        leaving (r.map fun _ => ()) (⟨configured?, limit?, r.toOption⟩, past ++ asked) := by
  obtain ⟨asked, r, hfinding, heq⟩ := find_finding w configured? limit? known? past
  unfold prepare
  rw [bind_eq_of_leaving heq]
  rcases r with f | _ | p
  · exact ⟨_, _, .fails hfinding, rfl⟩
  · cases configured? with
    | some p =>
      refine ⟨_, _, .misses [] [p.text] hfinding (by simp), ?_⟩
      rw [List.append_nil]
      rfl
    | none =>
      dsimp only
      rw [get_bind]
      unfold candidate
      simp only [bind_assoc, pure_bind]
      rw [bind_eq_of_leaving (cwd_eq w _)]
      cases hcwd : w.cwd (past ++ asked) with
      | ok cwd =>
        refine ⟨_, _, .misses [.located (.ok cwd)]
          [(cwd.child programName).text, searchPathWord] hfinding (by simp), ?_⟩
        rw [← List.append_assoc]
        rfl
      | error e =>
        refine ⟨_, _, .lost e hfinding, ?_⟩
        rw [← List.append_assoc]
        rfl
  · exact ⟨_, _, .found hfinding, rfl⟩

end

end ILDump.Tool
