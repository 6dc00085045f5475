import ILDump.Proofs.Text.Utf8
import ILDump.Proofs.Tool.Turns
import Mathlib.Data.List.Induction

/-!
# Sessions with the tool

A session is any sequence of calls to one tool, in a world where anything may happen between
two questions. All that holds of sessions follows from what single calls do, by induction on
the calls.

Once its place is known, the tool is not looked for again. So what happens to the working
directory and to the search path only matters up to the first call that finds the tool, and
what happens to the file of the tool is noticed by the check before a listing is made.
-/

namespace ILDump.Tool

open Pipeline (outcome stateAfter)

namespace World

variable (w : World)

/-- The tool after a call, and all that was asked until then. A call that fails counts too. -/
def leaves (s : Tool × List Event) (call : Call) : Tool × List Event :=
  stateAfter (call.perform w.host s)

/-- The tool after a session, and all that was asked during it. -/
def after (configured? : Option Path) (timeout : Int) (calls : List Call) : Tool × List Event :=
  calls.foldl w.leaves (ofOptions configured? timeout, [])

/-- How the next call ends. -/
def result (configured? : Option Path) (timeout : Int) (past : List Call) (now : Call) :
    Except Failure Unit :=
  outcome (now.perform w.host (w.after configured? timeout past))

variable (configured? : Option Path) (timeout : Int)

theorem after_append (past later : List Call) :
    w.after configured? timeout (past ++ later) =
      later.foldl w.leaves (w.after configured? timeout past) := List.foldl_append

/-- Calls only change where the tool is. -/
theorem after_eq (past : List Call) :
    ∃ known? events, w.after configured? timeout past =
      (⟨configured?, (ofOptions configured? timeout).timeout?, known?⟩, events) := by
  induction past using List.reverseRecOn with
  | nil => exact ⟨none, [], rfl⟩
  | append_singleton past now ih =>
    obtain ⟨known?, events, heq⟩ := ih
    obtain ⟨asked, left?, -, hleaves⟩ :=
      w.turn configured? (ofOptions configured? timeout).timeout? now known? events
    refine ⟨left?, events ++ asked, ?_⟩
    rw [after_append, heq]
    exact hleaves

/-- The next call of a session. -/
theorem turn_after (past : List Call) (now : Call) :
    ∃ asked left?,
      Turn configured? (ofOptions configured? timeout).timeout? now
        (w.after configured? timeout past).1.resolved? asked
        (w.result configured? timeout past now) left? ∧
      (w.after configured? timeout (past ++ [now])).1.resolved? = left? ∧
      (w.after configured? timeout (past ++ [now])).2 =
        (w.after configured? timeout past).2 ++ asked := by
  obtain ⟨known?, events, heq⟩ := w.after_eq configured? timeout past
  obtain ⟨asked, left?, hturn, hleaves⟩ :=
    w.turn configured? (ofOptions configured? timeout).timeout? now known? events
  have hafter : w.after configured? timeout (past ++ [now]) =
      (⟨configured?, (ofOptions configured? timeout).timeout?, left?⟩, events ++ asked) := by
    rw [after_append, heq]
    exact hleaves
  refine ⟨asked, left?, ?_, ?_, ?_⟩
  · rw [result, heq]
    exact hturn
  · rw [hafter]
  · rw [hafter, heq]

theorem resolved_stays {past : List Call} {p : Path}
    (h : (w.after configured? timeout past).1.resolved? = some p) (later : List Call) :
    (w.after configured? timeout (past ++ later)).1.resolved? = some p := by
  induction later using List.reverseRecOn with
  | nil => rwa [List.append_nil]
  | append_singleton later now ih =>
    obtain ⟨asked, left?, hturn, hleft, -⟩ := w.turn_after configured? timeout (past ++ later) now
    rw [ih] at hturn
    rw [← List.append_assoc, hleft]
    exact hturn.left?_eq

theorem configured_only (p : Path) (past : List Call) :
    ((w.after (some p) timeout past).1.resolved? = none ∨
      (w.after (some p) timeout past).1.resolved? = some p) ∧
      ∀ event ∈ (w.after (some p) timeout past).2, event.isSearch = false := by
  induction past using List.reverseRecOn with
  | nil => exact ⟨.inl rfl, by simp [after]⟩
  | append_singleton past now ih =>
    obtain ⟨asked, left?, hturn, hleft, hevents⟩ := w.turn_after (some p) timeout past now
    obtain ⟨hplace, hasked⟩ := hturn.of_configured ih.1
    refine ⟨hleft ▸ hplace, fun event hevent => ?_⟩
    rw [hevents] at hevent
    rcases List.mem_append.mp hevent with hevent | hevent
    · exact ih.2 event hevent
    · exact hasked event hevent

end World

/-- What holds after any calls `past`, and of the call `now` that comes next and asks `asked`. -/
structure Resolution (w : World) (configured? : Option Path) (timeout : Int) (past : List Call)
    (now : Call) (asked : List Event) : Prop where
  /-- These are the questions of the call. -/
  asks : (w.after configured? timeout (past ++ [now])).2 =
    (w.after configured? timeout past).2 ++ asked
  /-- A tool that was found stays the one to use. -/
  stays : ∀ p, (w.after configured? timeout past).1.resolved? = some p →
    ∀ later, (w.after configured? timeout (past ++ later)).1.resolved? = some p
  /-- A configured place is the only one, and the search path is never looked at. -/
  configured : ∀ p, configured? = some p →
    ((w.after configured? timeout past).1.resolved? = none ∨
      (w.after configured? timeout past).1.resolved? = some p) ∧
    ∀ event ∈ (w.after configured? timeout past).2, event.isSearch = false
  /-- Without one, a tool in the working directory wins over all that the search path has. -/
  unconfigured : configured? = none → (w.after configured? timeout past).1.resolved? = none →
    ∃ located later, asked = .located located :: later ∧
      (∀ e, located = .error e →
        (w.after configured? timeout (past ++ [now])).1.resolved? = none) ∧
      ∀ cwd, located = .ok cwd →
        ∃ isFile rest, later = .checked (cwd.child programName) isFile :: rest ∧
          (isFile = .ok true →
            (w.after configured? timeout (past ++ [now])).1.resolved? =
              some (cwd.child programName) ∧
            ∀ event ∈ rest, event.isSearch = false) ∧
          (isFile ≠ .ok true →
            (w.after configured? timeout (past ++ [now])).1.resolved? =
              (rest.findSome? Event.found?).map Path.ofString)
  /-- A call fails only for a missing tool, or when its last question could not be answered. -/
  failures : ∀ f, w.result configured? timeout past now = .error f →
    (∃ searched, f = missing searched) ∨ asked.getLast?.bind Event.trouble? = some f
  /-- A question that cannot be answered ends the call, which fails with it. -/
  troubles : ∀ opening event rest f, asked = opening ++ event :: rest →
    event.trouble? = some f → rest = [] ∧ w.result configured? timeout past now = .error f
  /-- Before a listing, a tool that was found earlier has to be there still. -/
  checked : ∀ source destination p, now = .disassemble source destination →
    (w.after configured? timeout past).1.resolved? = some p →
    ∃ isFile later, asked = .checked p isFile :: later ∧
      (isFile = .ok true → ∃ r, later =
        [.started [p.text, source.text, "/all", "/out=" ++ destination.text]
          (ofOptions configured? timeout).timeout? r]) ∧
      (isFile ≠ .ok true → later = []) ∧
      (isFile = .ok false → w.result configured? timeout past now = .error (missing [p.text]))
  /-- For a listing at most one program is started: the tool, once it was found, and right after
      it was seen to be there if it was found earlier. -/
  started : ∀ source destination command stop? r, now = .disassemble source destination →
    .started command stop? r ∈ asked →
    ∃ p looks, (w.after configured? timeout (past ++ [now])).1.resolved? = some p ∧
      command = [p.text, source.text, "/all", "/out=" ++ destination.text] ∧
      stop? = (ofOptions configured? timeout).timeout? ∧
      asked = looks ++ [.started command stop? r] ∧
      (∀ command stop? r, .started command stop? r ∉ looks) ∧
      w.result configured? timeout past now = ending p r ∧
      ((w.after configured? timeout past).1.resolved?.isSome → looks = [.checked p (.ok true)])

/-- Whatever happens between and during the calls of a session: the place of the tool is settled
    once, and a listing starts nothing but that tool. -/
theorem resolution_of_session (w : World) (configured? : Option Path) (timeout : Int)
    (past : List Call) (now : Call) : ∃ asked, Resolution w configured? timeout past now asked := by
  obtain ⟨asked, left?, hturn, hleft, hasks⟩ := w.turn_after configured? timeout past now
  refine ⟨asked, ?_⟩
  constructor
  case asks => exact hasks
  case stays =>
    intro p hp later
    exact w.resolved_stays configured? timeout hp later
  case configured =>
    rintro p rfl
    exact w.configured_only timeout p past
  case unconfigured =>
    rintro rfl hnone
    rw [hnone] at hturn
    rw [hleft]
    exact hturn.of_unconfigured
  case failures =>
    intro f hf
    exact hturn.decided.failure hf
  case troubles =>
    intro opening event rest f heq htrouble
    exact hturn.decided.trouble heq htrouble
  case checked =>
    rintro source destination p rfl hp
    rw [hp] at hturn
    exact hturn.checked
  case started =>
    rintro source destination command stop? r rfl hstarted
    rw [hleft]
    exact hturn.started hstarted

/-- An empty file tree, where no program starts. -/
def World.ofNothing : World where
  cwd _ := .ok ⟨.root, []⟩
  isFile _ p :=
    match (Tree.ofEntries []).refusal? [] p with
    | some e => .error e
    | none => .ok ((Tree.ofEntries []).isFile [] p)
  findOnSearchPath _ _ := .ok none
  start _ _ _ := .refused .notFound

theorem World.ofNothing_isFile_overlong (past : List Event) {name : String}
    (hname : Tree.nameLimit < (Utf8.encode name).length) :
    World.ofNothing.isFile past ⟨.relative, [name]⟩ = .error .nameTooLong := by
  have hup : name ≠ Path.up := by
    rintro rfl
    exact absurd hname (by decide +kernel)
  have hrefused : (Tree.ofEntries []).refusal? [] ⟨.relative, [name]⟩ = some .nameTooLong := by
    simp [Tree.refusal?, Tree.locate, Tree.walk, Tree.node?, Tree.ofEntries, Tree.overlong?,
      Path.isAbsolute, DiskError.isAbsence, hname, hup]
  simp only [World.ofNothing, hrefused]

theorem World.ofNothing_result_overlong {name : String}
    (hname : Tree.nameLimit < (Utf8.encode name).length) (source destination : Path) :
    World.ofNothing.result (some ⟨.relative, [name]⟩) 0 [] (.disassemble source destination) =
      .error (.disk .nameTooLong (Path.mk .relative [name]).text) := by
  have hfile := isFile_eq World.ofNothing (ofOptions (some ⟨.relative, [name]⟩) 0, [])
    ⟨.relative, [name]⟩
  rw [World.ofNothing_isFile_overlong _ hname] at hfile
  exact congrArg outcome (bind_eq_of_error (bind_eq_of_error (bind_eq_of_error hfile)))

/-- A configured name of 300 letters is no missing tool: the system refuses to look for it. -/
theorem overlong_tool_refused :
    let p : Path := ⟨.relative, [String.ofList (List.replicate 300 'a')]⟩
    World.ofNothing.result (some p) 0 []
        (.disassemble ⟨.relative, ["a.dll"]⟩ ⟨.relative, ["a.il"]⟩) =
        .error (.disk .nameTooLong p.text) ∧
      ∀ searched, Failure.disk .nameTooLong p.text ≠ missing searched := by
  refine ⟨World.ofNothing_result_overlong ?_ _ _, nofun⟩
  rw [Utf8.encode_eq_flatMap, String.toList_ofList, List.length_flatMap, List.map_replicate,
    List.sum_replicate_nat]
  decide

end ILDump.Tool
