import ILDump.Proofs.Pipeline.Trace
import ILDump.Proofs.Tool.Searches

/-!
# Single calls of the tool

`Turn` tells what one call asks, how it ends and where the tool is from then on, by what is
known of its place before. A call looks for the tool unless the place is known. A listing starts
the tool as the last thing it does, and looks once more at a tool that was found earlier, since
it may be gone by now.
-/

namespace ILDump.Tool

open Pipeline (outcome stateAfter)

/-! ### Calls -/

/-- What can be asked of the tool. -/
inductive Call where
  | isAvailable
  | prepare
  | disassemble (source destination : Path)
  | version
  | diagnose

def Call.perform {σ : Type} (h : ToolHost σ) : Call → ToolWork σ Unit
  | .isAvailable => do
    let _ ← Tool.isAvailable h
  | .prepare => Tool.prepare h
  | .disassemble source destination => Tool.disassemble h source destination
  | .version => do
    let _ ← Tool.version h
  | .diagnose => do
    let _ ← Tool.diagnose h

/-! ### One call -/

/-- How a listing ends, once the tool was started for it. -/
def ending (p : Path) : ProgramEnd → Except Failure Unit
  | .refused .notFound => .error (missing [p.text])
  | _ => .ok ()

/-- One call, by the place of the tool before it: what is asked, how it ends, and the place of
    the tool after it. -/
inductive Turn (configured? : Option Path) (limit? : Option Int) :
    Call → Option Path → List Event → Except Failure Unit → Option Path → Prop where
  | looks {call : Call} {known? found? : Option Path} {asked : List Event}
    (hcall : ∀ source destination, call ≠ .disassemble source destination) :
    Finding configured? known? asked (.ok found?) →
    Turn configured? limit? call known? asked (.ok ()) found?
  | fails {call : Call} {known? : Option Path} {asked : List Event} {f : Failure}
    (hcall : ∀ source destination, call ≠ .disassemble source destination) :
    Finding configured? known? asked (.error f) →
    Turn configured? limit? call known? asked (.error f) none
  | unprepared {call : Call} {known? : Option Path} {asked : List Event} {f : Failure} :
    Preparation configured? known? asked (.error f) →
    Turn configured? limit? call known? asked (.error f) none
  | tells {call : Call} {known? : Option Path} {p : Path} {asked : List Event} {result : ProgramEnd}
    (hcall : ∀ source destination, call ≠ .disassemble source destination) :
    Finding configured? known? asked (.ok (some p)) →
    Turn configured? limit? call known?
      (asked ++ [.started [p.text, "/?"] (some versionTimeout) result]) (.ok ()) (some p)
  | unchecked {source destination p : Path} (e : DiskError) :
    Turn configured? limit? (.disassemble source destination) (some p) [.checked p (.error e)]
      (.error (.disk e p.text)) (some p)
  | vanished {source destination p : Path} :
    Turn configured? limit? (.disassemble source destination) (some p) [.checked p (.ok false)]
      (.error (missing [p.text])) (some p)
  | again {source destination p : Path} (result : ProgramEnd) :
    Turn configured? limit? (.disassemble source destination) (some p)
      [.checked p (.ok true),
        .started [p.text, source.text, "/all", "/out=" ++ destination.text] limit? result]
      (ending p result) (some p)
  | first {source destination p : Path} {asked : List Event} (result : ProgramEnd) :
    Search configured? asked (.ok (some p)) →
    Turn configured? limit? (.disassemble source destination) none
      (asked ++ [.started [p.text, source.text, "/all", "/out=" ++ destination.text] limit? result])
      (ending p result) (some p)

theorem eq_missing_of_ending {p : Path} {result : ProgramEnd} {f : Failure}
    (h : ending p result = .error f) : f = missing [p.text] := by
  cases result with
  | refused e =>
    cases e with
    | notFound => exact (Except.error.inj h).symm
    | _ => cases h
  | _ => cases h

/-- What is left to do for a listing once the place is settled. -/
def startFor {σ : Type} (host : ToolHost σ) (source destination : Path) : ToolWork σ Unit := do
  let tool := (← get).1
  conclude host tool source
    (← (host.start (tool.command source destination) tool.timeout?).onSecond)

section Listing

variable {σ : Type} {host : ToolHost σ} {configured? : Option Path} {limit? : Option Int} {p : Path}
  {st st' : σ}

/-- A tool that was found is looked at once more, since it may be gone by now. -/
theorem disassemble_of_resolved {x : Except Failure Bool} (source destination : Path) :
    (host.isFile p).onSecond ((⟨configured?, limit?, some p⟩ : Tool), st) =
        leaving x (⟨configured?, limit?, some p⟩, st') →
      disassemble host source destination (⟨configured?, limit?, some p⟩, st) =
        match x with
        | .ok true => startFor host source destination (⟨configured?, limit?, some p⟩, st')
        | .ok false => .error (missing [p.text]) (⟨configured?, limit?, some p⟩, st')
        | .error f => .error f (⟨configured?, limit?, some p⟩, st') := by
  intro hseen
  unfold disassemble
  rw [get_bind]
  dsimp only
  rw [bind_eq_of_leaving hseen]
  rcases x with f | _ | _ <;> rfl

-- what a log leaves of the surroundings, `Kept`, is up to them
variable {Kept : σ → σ → Prop} (hrefl : ∀ st, Kept st st)
  (hlog : ∀ level text st, ∃ st', host.log level text st = .ok () st' ∧ Kept st st')
include hrefl hlog

/-- Trouble with a started program is logged. Only a missing one is a failure. -/
theorem conclude_ends (source : Path) (result : ProgramEnd) (tool : Tool) (st : σ) :
    ∃ st', Kept st st' ∧ conclude host ⟨configured?, limit?, some p⟩ source result (tool, st) =
      leaving (ending p result) (tool, st') := by
  have hlogged (level : LogLevel) (text : String) :
      ∃ st', Kept st st' ∧ log host level text (tool, st) = .ok () (tool, st') := by
    obtain ⟨st', hst', hkept⟩ := hlog level text st
    refine ⟨st', hkept, ?_⟩
    rw [log, Work.onSecond, hst']
  cases result with
  | finished status output errors =>
    by_cases hstatus : status = 0
    · subst hstatus
      exact ⟨st, hrefl st, rfl⟩
    · simp only [conclude, if_pos hstatus]
      exact hlogged _ _
  | expired => exact hlogged _ _
  | refused e =>
    cases e with
    | notFound => exact ⟨st, hrefl st, rfl⟩
    | _ => exact hlogged _ _

theorem startFor_ends {source destination : Path} {result : ProgramEnd}
    (hstart : (host.start [p.text, source.text, "/all", "/out=" ++ destination.text]
      limit?).onSecond ((⟨configured?, limit?, some p⟩ : Tool), st) =
        .ok result (⟨configured?, limit?, some p⟩, st')) :
    ∃ st'', Kept st' st'' ∧
      startFor host source destination (⟨configured?, limit?, some p⟩, st) =
        leaving (ending p result) (⟨configured?, limit?, some p⟩, st'') := by
  obtain ⟨st'', hkept, hends⟩ :=
    conclude_ends hrefl hlog source result ⟨configured?, limit?, some p⟩ st'
  refine ⟨st'', hkept, ?_⟩
  unfold startFor
  rw [get_bind]
  exact (bind_eq_of_ok hstart).trans hends

end Listing

namespace World

variable (w : World) (configured? : Option Path) (limit? : Option Int)

theorem startFor_eq (p source destination : Path) (past : List Event) :
    ∃ result, startFor w.host source destination (⟨configured?, limit?, some p⟩, past) =
      leaving (ending p result) (⟨configured?, limit?, some p⟩, past ++
        [.started [p.text, source.text, "/all", "/out=" ++ destination.text] limit? result]) := by
  have hlog (level : LogLevel) (text : String) (past : List Event) :
      ∃ past', w.host.log level text past = .ok () past' ∧ past = past' := ⟨past, rfl, rfl⟩
  obtain ⟨_, rfl, hends⟩ := startFor_ends (fun past => rfl) hlog
    (start_eq w (⟨configured?, limit?, some p⟩, past) _ limit?)
  exact ⟨_, hends⟩

theorem disassemble_of_unresolved (source destination : Path) (past : List Event) :
    disassemble w.host source destination (⟨configured?, limit?, none⟩, past) =
      (Tool.prepare w.host >>= fun _ => startFor w.host source destination)
        (⟨configured?, limit?, none⟩, past) := rfl

/-- The version is asked for when there is a tool, whatever comes of that. -/
theorem version_finding (known? : Option Path) (past : List Event) :
    ∃ asked r, Finding configured? known? asked r ∧
      ((∃ p result version?, r = .ok (some p) ∧
          Tool.version w.host (⟨configured?, limit?, known?⟩, past) =
            .ok version? (⟨configured?, limit?, some p⟩, past ++
              (asked ++ [.started [p.text, "/?"] (some versionTimeout) result]))) ∨
        placeFound? r = none ∧ Tool.version w.host (⟨configured?, limit?, known?⟩, past) =
          leaving (r.map fun _ => none) (⟨configured?, limit?, none⟩, past ++ asked)) := by
  obtain ⟨asked, r, hfinding, heq⟩ := find_finding w configured? limit? known? past
  refine ⟨asked, r, hfinding, ?_⟩
  unfold Tool.version
  rw [bind_eq_of_leaving heq]
  rcases r with f | _ | p
  · exact .inr ⟨rfl, rfl⟩
  · exact .inr ⟨rfl, rfl⟩
  · left
    have hstart := start_eq w (⟨configured?, limit?, some p⟩, past ++ asked) [p.text, "/?"]
      (some versionTimeout)
    rw [List.append_assoc] at hstart
    simp only [placeFound?_ok]
    rw [bind_eq_of_ok hstart]
    cases hresult : w.start (past ++ asked) [p.text, "/?"] (some versionTimeout) with
    | finished status output errors => exact ⟨p, _, _, rfl, rfl⟩
    | expired => exact ⟨p, _, none, rfl, rfl⟩
    | refused e => exact ⟨p, _, none, rfl, rfl⟩

/-- One call makes a turn, whatever happened before. -/
def TakesTurn (call : Call) (known? : Option Path) (past : List Event) : Prop :=
  ∃ asked left?,
    Turn configured? limit? call known? asked
      (outcome (call.perform w.host (⟨configured?, limit?, known?⟩, past))) left? ∧
    stateAfter (call.perform w.host (⟨configured?, limit?, known?⟩, past)) =
      (⟨configured?, limit?, left?⟩, past ++ asked)

section

variable {w configured? limit?} {call : Call} {known? left? : Option Path} {past asked : List Event}
  {result : Except Failure Unit}

theorem TakesTurn.of_eq (hturn : Turn configured? limit? call known? asked result left?)
    (h : call.perform w.host (⟨configured?, limit?, known?⟩, past) =
      leaving result (⟨configured?, limit?, left?⟩, past ++ asked)) :
    w.TakesTurn configured? limit? call known? past := by
  refine ⟨asked, left?, ?_⟩
  rw [h]
  cases result <;> exact ⟨hturn, rfl⟩

end

theorem disassemble_turn (source destination : Path) (known? : Option Path) (past : List Event) :
    w.TakesTurn configured? limit? (.disassemble source destination) known? past := by
  cases known? with
  | some p =>
    have hcall := disassemble_of_resolved source destination
      (isFile_eq w (⟨configured?, limit?, some p⟩, past) p)
    rcases hseen : w.isFile past p with e | _ | _
    · rw [hseen] at hcall
      exact .of_eq (.unchecked e) hcall
    · rw [hseen] at hcall
      exact .of_eq .vanished hcall
    · rw [hseen] at hcall
      obtain ⟨result, hends⟩ :=
        w.startFor_eq configured? limit? p source destination (past ++ [.checked p (.ok true)])
      rw [List.append_assoc] at hends
      exact .of_eq (.again result) (hcall.trans hends)
  | none =>
    have hcall := w.disassemble_of_unresolved configured? limit? source destination past
    obtain ⟨asked, r, hprepare, heq⟩ := prepare_preparation w configured? limit? none past
    rw [bind_eq_of_leaving heq] at hcall
    cases r with
    | error f => exact .of_eq (.unprepared hprepare) hcall
    | ok p =>
      obtain ⟨result, hends⟩ :=
        w.startFor_eq configured? limit? p source destination (past ++ asked)
      rw [List.append_assoc] at hends
      cases hprepare with
      | found hfinding =>
        cases hfinding with
        | searched hsearch => exact .of_eq (.first result hsearch) (hcall.trans hends)

theorem version_turn (known? : Option Path) (past : List Event) :
    w.TakesTurn configured? limit? .version known? past := by
  obtain ⟨asked, r, hfinding, ⟨p, result, version?, rfl, heq⟩ | ⟨hplace, heq⟩⟩ :=
    version_finding w configured? limit? known? past
  · exact .of_eq (.tells (by simp) hfinding) (bind_eq_of_ok heq)
  · rcases r with f | _ | p
    · exact .of_eq (.fails (by simp) hfinding) (bind_eq_of_error heq)
    · exact .of_eq (.looks (by simp) hfinding) (bind_eq_of_ok heq)
    · cases hplace

theorem diagnose_turn (known? : Option Path) (past : List Event) :
    w.TakesTurn configured? limit? .diagnose known? past := by
  obtain ⟨asked, r, hfinding, heq⟩ := find_finding w configured? limit? known? past
  rcases r with f | _ | p
  · exact .of_eq (.fails (by simp) hfinding) (bind_eq_of_error (bind_eq_of_error heq))
  · exact .of_eq (.looks (by simp) hfinding) (bind_eq_of_ok (bind_eq_of_ok heq))
  · -- the place is known by now, so asking for the version starts the tool at once
    obtain ⟨asked', r, hfinding', ⟨p', result, version?, rfl, heq'⟩ | ⟨hplace, heq'⟩⟩ :=
      version_finding w configured? limit? (some p) (past ++ asked)
    · cases hfinding'
      obtain ⟨value, hvalue⟩ : ∃ value,
          Tool.diagnose w.host (⟨configured?, limit?, known?⟩, past) =
            .ok value (⟨configured?, limit?, some p⟩, past ++ asked ++
              [.started [p.text, "/?"] (some versionTimeout) result]) :=
        ⟨_, (bind_eq_of_ok heq).trans ((bind_eq_of_ok heq').trans rfl)⟩
      rw [List.append_assoc] at hvalue
      exact .of_eq (.tells (by simp) hfinding) (bind_eq_of_ok hvalue)
    · cases hfinding'
      cases hplace

/-- What one call does, whatever happened before. -/
theorem turn (call : Call) (known? : Option Path) (past : List Event) :
    w.TakesTurn configured? limit? call known? past := by
  cases call with
  | isAvailable =>
    obtain ⟨asked, r, hfinding, heq⟩ := find_finding w configured? limit? known? past
    cases r with
    | ok found? => exact .of_eq (.looks (by simp) hfinding) (bind_eq_of_ok (bind_eq_of_ok heq))
    | error f => exact .of_eq (.fails (by simp) hfinding) (bind_eq_of_error (bind_eq_of_error heq))
  | prepare =>
    obtain ⟨asked, r, hprepare, heq⟩ := prepare_preparation w configured? limit? known? past
    cases r with
    | error f => exact .of_eq (.unprepared hprepare) heq
    | ok p =>
      cases hprepare with
      | found hfinding => exact .of_eq (.looks (by simp) hfinding) heq
  | disassemble source destination =>
    exact w.disassemble_turn configured? limit? source destination known? past
  | version => exact w.version_turn configured? limit? known? past
  | diagnose => exact w.diagnose_turn configured? limit? known? past

end World

/-! ### What a call keeps to -/

section

variable {configured? known? left? : Option Path} {limit? : Option Int} {call : Call}
  {asked : List Event} {result : Except Failure Unit}

/-- Only the working directory is asked for after the search, to be told of. -/
theorem Preparation.finding {r : Except Failure Path} (h : Preparation configured? known? asked r) :
    ∃ looks more found, asked = looks ++ more ∧ Finding configured? known? looks found ∧
      placeFound? found = r.toOption ∧ ∀ event ∈ more, ∃ located, event = .located located := by
  cases h with
  | found hfinding => exact ⟨_, [], _, (List.append_nil _).symm, hfinding, rfl, by simp⟩
  | fails hfinding => exact ⟨_, [], _, (List.append_nil _).symm, hfinding, rfl, by simp⟩
  | misses _ _ hfinding hagain =>
    refine ⟨_, _, _, rfl, hfinding, rfl, fun event hevent => ?_⟩
    obtain ⟨cwd, rfl⟩ := hagain event hevent
    exact ⟨_, rfl⟩
  | lost e hfinding => exact ⟨_, _, _, rfl, hfinding, rfl, by simp⟩

theorem Preparation.decided {r : Except Failure Path} (h : Preparation configured? known? asked r) :
    Decided asked r := by
  cases h with
  | found hfinding => exact hfinding.decided.congr (by simp)
  | fails hfinding => exact hfinding.decided.congr (by simp)
  | misses _ _ hfinding hagain =>
    refine .append hfinding.decided.answered (.of_answered (fun event hevent => ?_) ?_)
    · obtain ⟨cwd, rfl⟩ := hagain event hevent
      rfl
    · exact fun f hf => ⟨_, (Except.error.inj hf).symm⟩
  | lost e hfinding => exact .append hfinding.decided.answered (.of_trouble rfl)

theorem Turn.decided (h : Turn configured? limit? call known? asked result left?) :
    Decided asked result := by
  have hended {p : Path} {r : ProgramEnd} {f : Failure} (h : ending p r = .error f) :
      ∃ searched, f = missing searched := ⟨_, eq_missing_of_ending h⟩
  cases h with
  | looks _ hfinding => exact hfinding.decided.congr (by simp)
  | fails _ hfinding => exact hfinding.decided.congr (by simp)
  | unprepared hprepare => exact hprepare.decided.congr (by simp)
  | tells _ hfinding =>
    exact .append hfinding.decided.answered (.of_answered (by simp [Event.trouble?]) nofun)
  | unchecked e => exact .of_trouble rfl
  | vanished =>
    exact .of_answered (by simp [Event.trouble?]) fun f hf => ⟨_, (Except.error.inj hf).symm⟩
  | again r => exact .of_answered (by simp [Event.trouble?]) fun f => hended
  | first r hsearch =>
    exact .append hsearch.decided.answered
      (.of_answered (by simp [Event.trouble?]) fun f => hended)

/-- The search path is only looked at to find the tool, and that comes first. -/
theorem Turn.finding (h : Turn configured? limit? call known? asked result left?) :
    ∃ looks more found, asked = looks ++ more ∧ Finding configured? known? looks found ∧
      placeFound? found = left? ∧ ∀ event ∈ more, event.isSearch = false := by
  cases h with
  | looks _ hfinding => exact ⟨_, [], _, (List.append_nil _).symm, hfinding, rfl, by simp⟩
  | fails _ hfinding => exact ⟨_, [], _, (List.append_nil _).symm, hfinding, rfl, by simp⟩
  | unprepared hprepare =>
    obtain ⟨looks, more, found, rfl, hfinding, hplace, hmore⟩ := hprepare.finding
    refine ⟨looks, more, found, rfl, hfinding, hplace, fun event hevent => ?_⟩
    obtain ⟨located, rfl⟩ := hmore event hevent
    rfl
  | tells _ hfinding => exact ⟨_, _, _, rfl, hfinding, rfl, by simp [Event.isSearch]⟩
  | unchecked e => exact ⟨[], _, _, rfl, .known _, rfl, by simp [Event.isSearch]⟩
  | vanished => exact ⟨[], _, _, rfl, .known _, rfl, by simp [Event.isSearch]⟩
  | again r => exact ⟨[], _, _, rfl, .known _, rfl, by simp [Event.isSearch]⟩
  | first r hsearch => exact ⟨_, _, _, rfl, .searched hsearch, rfl, by simp [Event.isSearch]⟩

theorem Turn.left?_eq {p : Path} (h : Turn configured? limit? call (some p) asked result left?) :
    left? = some p := by
  obtain ⟨looks, more, found, -, hfinding, hplace, -⟩ := h.finding
  cases hfinding
  exact hplace.symm

/-- A configured place is the only one that a search comes to, without the search path. -/
theorem Search.of_configured {p : Path} {r : Except Failure (Option Path)}
    (h : Search (some p) asked r) :
    (placeFound? r = none ∨ placeFound? r = some p) ∧
      ∀ event ∈ asked, event.isSearch = false := by
  cases h with
  | configured _ isFile => cases isFile <;> simp [Event.isSearch]
  | unchecked _ e => simp [Event.isSearch]

theorem Turn.of_configured {p : Path}
    (h : Turn (some p) limit? call known? asked result left?)
    (hknown : known? = none ∨ known? = some p) :
    (left? = none ∨ left? = some p) ∧ ∀ event ∈ asked, event.isSearch = false := by
  obtain ⟨looks, more, found, rfl, hfinding, rfl, hmore⟩ := h.finding
  have hlooks : (placeFound? found = none ∨ placeFound? found = some p) ∧
      ∀ event ∈ looks, event.isSearch = false := by
    cases hfinding with
    | known q => exact ⟨hknown, by simp⟩
    | searched hsearch => exact hsearch.of_configured
  refine ⟨hlooks.1, fun event hevent => ?_⟩
  rcases List.mem_append.mp hevent with hevent | hevent
  · exact hlooks.2 event hevent
  · exact hmore event hevent

/-- Without a configured place the working directory comes first, and the search path only when
    there is nothing. -/
theorem Search.of_unconfigured {r : Except Failure (Option Path)} (h : Search none asked r) :
    ∃ located later, asked = .located located :: later ∧
      (∀ e, located = .error e → placeFound? r = none) ∧
      ∀ cwd, located = .ok cwd →
        ∃ isFile rest, later = .checked (cwd.child programName) isFile :: rest ∧
          (isFile = .ok true → placeFound? r = some (cwd.child programName) ∧ rest = []) ∧
          (isFile ≠ .ok true →
            placeFound? r = (rest.findSome? Event.found?).map Path.ofString) := by
  cases h with
  | astray e => exact ⟨.error e, [], rfl, fun _ _ => rfl, nofun⟩
  | unseen cwd e =>
    refine ⟨.ok cwd, _, rfl, nofun, ?_⟩
    rintro _ ⟨⟩
    exact ⟨.error e, [], rfl, nofun, fun _ => rfl⟩
  | beside cwd =>
    refine ⟨.ok cwd, _, rfl, nofun, ?_⟩
    rintro _ ⟨⟩
    exact ⟨.ok true, [], rfl, fun _ => ⟨rfl, rfl⟩, fun hfile => absurd rfl hfile⟩
  | @along cwd rest _ halong =>
    refine ⟨.ok cwd, _, rfl, nofun, ?_⟩
    rintro _ ⟨⟩
    exact ⟨.ok false, rest, rfl, nofun, fun _ => halong.found?_eq.symm⟩
  | @nowhere cwd again rest halong =>
    refine ⟨.ok cwd, _, rfl, nofun, ?_⟩
    rintro _ ⟨⟩
    refine ⟨.ok false, _, rfl, nofun, fun _ => ?_⟩
    have hnothing : placeFound? ((again.mapError .astray).map fun _ => none) = none := by
      cases again <;> rfl
    rw [hnothing, List.findSome?_append, Option.map_or, halong.found?_eq]
    simp [Event.found?]

theorem findSome?_eq_none_of_not_search {events : List Event}
    (h : ∀ event ∈ events, event.isSearch = false) : events.findSome? Event.found? = none := by
  rw [List.findSome?_eq_none_iff]
  intro event hevent
  have hsearch := h event hevent
  cases event with
  | searched name found? => cases hsearch
  | located cwd => rfl
  | checked p isFile => rfl
  | started command limit? result => rfl

theorem Turn.of_unconfigured (h : Turn none limit? call none asked result left?) :
    ∃ located later, asked = .located located :: later ∧
      (∀ e, located = .error e → left? = none) ∧
      ∀ cwd, located = .ok cwd →
        ∃ isFile rest, later = .checked (cwd.child programName) isFile :: rest ∧
          (isFile = .ok true → left? = some (cwd.child programName) ∧
            ∀ event ∈ rest, event.isSearch = false) ∧
          (isFile ≠ .ok true → left? = (rest.findSome? Event.found?).map Path.ofString) := by
  obtain ⟨looks, more, found, rfl, hfinding, rfl, hmore⟩ := h.finding
  cases hfinding with
  | searched hsearch =>
    obtain ⟨located, later, rfl, herror, hlocated⟩ := hsearch.of_unconfigured
    refine ⟨located, later ++ more, rfl, herror, fun cwd hcwd => ?_⟩
    obtain ⟨isFile, rest, rfl, htrue, hfalse⟩ := hlocated cwd hcwd
    refine ⟨isFile, rest ++ more, rfl, fun hfile => ?_, fun hfile => ?_⟩
    · obtain ⟨hleft, rfl⟩ := htrue hfile
      exact ⟨hleft, hmore⟩
    · rw [List.findSome?_append, findSome?_eq_none_of_not_search hmore, Option.or_none]
      exact hfalse hfile

/-- For a listing the tool is started at most once, as the last thing, and right after it was
    found or seen to be there still. -/
theorem Turn.started {source destination : Path} {command : List String} {stop? : Option Int}
    {r : ProgramEnd}
    (h : Turn configured? limit? (.disassemble source destination) known? asked result left?)
    (hstarted : .started command stop? r ∈ asked) :
    ∃ p looks, left? = some p ∧
      command = [p.text, source.text, "/all", "/out=" ++ destination.text] ∧ stop? = limit? ∧
      asked = looks ++ [.started command stop? r] ∧
      (∀ command stop? r, .started command stop? r ∉ looks) ∧ result = ending p r ∧
      (known?.isSome → looks = [.checked p (.ok true)]) := by
  cases h with
  | looks hcall => exact absurd rfl (hcall source destination)
  | fails hcall => exact absurd rfl (hcall source destination)
  | unprepared hprepare =>
    obtain ⟨looks, more, found, rfl, hfinding, -, hmore⟩ := hprepare.finding
    rcases List.mem_append.mp hstarted with hstarted | hstarted
    · exact absurd hstarted hfinding.not_started
    · obtain ⟨located, hlocated⟩ := hmore _ hstarted
      cases hlocated
  | tells hcall => exact absurd rfl (hcall source destination)
  | unchecked e => simp at hstarted
  | vanished => simp at hstarted
  | @again _ _ p result =>
    obtain ⟨rfl, rfl, rfl⟩ : command = [p.text, source.text, "/all", "/out=" ++ destination.text] ∧
        stop? = limit? ∧ r = result := by simpa using hstarted
    exact ⟨p, [.checked p (.ok true)], rfl, rfl, rfl, rfl, by simp, rfl, fun _ => rfl⟩
  | @first _ _ p looks result hsearch =>
    obtain hstarted | hstarted := List.mem_append.mp hstarted
    · exact absurd hstarted hsearch.not_started
    · cases List.mem_singleton.mp hstarted
      exact ⟨p, looks, rfl, rfl, rfl, rfl, fun _ _ _ => hsearch.not_started, rfl, nofun⟩

/-- A tool that was found earlier is checked before each listing, and started only if it is
    there still. -/
theorem Turn.checked {source destination p : Path}
    (h : Turn configured? limit? (.disassemble source destination) (some p) asked result left?) :
    ∃ isFile later, asked = .checked p isFile :: later ∧
      (isFile = .ok true → ∃ r, later =
        [.started [p.text, source.text, "/all", "/out=" ++ destination.text] limit? r]) ∧
      (isFile ≠ .ok true → later = []) ∧
      (isFile = .ok false → result = .error (missing [p.text])) := by
  cases h with
  | looks hcall => exact absurd rfl (hcall source destination)
  | fails hcall => exact absurd rfl (hcall source destination)
  | unprepared hprepare =>
    obtain ⟨_, _, found, -, hfinding, hplace, -⟩ := hprepare.finding
    cases hfinding
    cases hplace
  | tells hcall => exact absurd rfl (hcall source destination)
  | unchecked e => exact ⟨.error e, [], rfl, nofun, fun _ => rfl, nofun⟩
  | vanished => exact ⟨.ok false, [], rfl, nofun, fun _ => rfl, fun _ => rfl⟩
  | again r => exact ⟨.ok true, _, rfl, fun _ => ⟨r, rfl⟩, fun h => absurd rfl h, nofun⟩

end

end ILDump.Tool
