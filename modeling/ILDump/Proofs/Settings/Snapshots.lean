import ILDump.Proofs.Settings.Loads

/-!
# Settings as snapshots

Settings that are not in the environment come from a file, which is read the first time one
of them is asked for. From then on the file counts as it was at that time, wherever the
session has moved since, until the settings are forgotten. So an answer depends on the calls
before it, but on nothing of them except the first one since the last `forget` that needed a
file and could read it: this is what `snapshot?` picks from a history.
-/

namespace ILDump.Settings

/-! ### Calls -/

/-- What can be asked of the settings. -/
inductive Call where
  | get (key : String) (other? : Option String)
  | getInt (key : String) (other : Int)
  | status
  | load
  | forget
deriving DecidableEq, Repr

inductive Answer where
  | value (value? : Option String)
  | number (n : Int)
  | statuses (found : List Status)
  | done
deriving Repr

def Call.perform : Call → Session Answer
  | .get key other? => return .value (← getOr key other?)
  | .getInt key other => return .number (← Settings.getInt key other)
  | .status => return .statuses (← Settings.status)
  | .load => do
    Settings.load
    return .done
  | .forget => do
    Settings.forget
    return .done

/-- A call, with what is outside at that time. -/
structure Occasion where
  outside : Outside
  call : Call

/-- The session as it is, in other surroundings. -/
def Outside.around (o : Outside) (w : Workspace) : Workspace :=
  { w with tree := o.tree, cwd := o.cwd, environment := o.environment }

def Occasion.answer (now : Occasion) (w : Workspace) : Except Failure Answer :=
  match now.call.perform (now.outside.around w) with
  | .ok answer _ => .ok answer
  | .error e _ => .error e

def Occasion.leaves (now : Occasion) (w : Workspace) : Workspace :=
  match now.call.perform (now.outside.around w) with
  | .ok _ w' => w'
  | .error _ w' => w'

/-- The session after calls. Between them everything outside may have changed. -/
def after (past : List Occasion) (w : Workspace) : Workspace :=
  past.foldl (fun w now => now.leaves w) w

/-! ### What a history says -/

def valueIn? (settings : List (String × String)) (key : String) : Option String :=
  (settings.find? fun s => s.1 = key).map (·.2)

/-- A setting of the environment is found there, without a file. -/
def Occasion.needsFile (now : Occasion) : Bool :=
  match now.call with
  | .get key _ | .getInt key _ => (valueIn? now.outside.environment key).isNone
  | .status | .load => true
  | .forget => false

def sinceForgotten (past : List Occasion) : List Occasion :=
  (past.reverse.takeWhile fun now => now.call ≠ .forget).reverse

/-- The settings of the file at the first call since the last `forget` that needed one, passing
    over the calls that failed to read it. -/
def snapshot? (past : List Occasion) : Option (List (String × String)) :=
  (sinceForgotten past).findSome? fun now =>
    if now.needsFile then now.outside.settings? else none

/-- Where a setting is found, and its value. -/
def found? (environment settings : List (String × String)) (key : String) :
    Option (Origin × String) :=
  match valueIn? environment key with
  | some value => some (.environment, value)
  | none => (valueIn? settings key).map fun value => (.file, value)

theorem snapshot?_append_one (past : List Occasion) (now : Occasion) :
    snapshot? (past ++ [now]) =
      if now.call = .forget then none
      else if now.needsFile then (snapshot? past).or now.outside.settings? else snapshot? past := by
  unfold snapshot? sinceForgotten
  rw [List.reverse_append, List.reverse_singleton, List.singleton_append, List.takeWhile_cons]
  by_cases hforget : now.call = .forget
  · simp [hforget]
  · by_cases hneeds : now.needsFile = true
    · simp [hforget, hneeds, List.findSome?_append]
    · simp [hforget, hneeds, List.findSome?_append]

-- a file that is no text is passed over, and what becomes of the file later does not count
example :
    let dir : Place := ["work"]
    let holding := fun content =>
      Outside.mk (.ofEntries [(dir, .directory), (dir ++ [fileName], .file content false)]) dir []
    snapshot? [⟨holding [0xFF], .load⟩, ⟨holding [65, 61, 49], .load⟩,
      ⟨holding [65, 61, 50], .get "A" none⟩] = some [("A", "1")] := by
  decide +kernel

/-! ### One call -/

/-- What a call says of settings. -/
def Call.reply (call : Call) (environment settings : List (String × String)) : Answer :=
  let value? := fun key => (found? environment settings key).map (·.2)
  match call with
  | .get key other? => .value ((value? key).or other?)
  | .getInt key other => .number (((value? key).bind Unicode.parseInt?).getD other)
  | .status => .statuses (keys.map fun k => ⟨k.1, found? environment settings k.1⟩)
  | .load | .forget => .done

theorem environmentValue?_eq (w : Workspace) (key : String) :
    w.environmentValue? key = valueIn? w.environment key := rfl

theorem fileValue?_eq {w : Workspace} {settings : List (String × String)}
    (h : w.settings? = some settings) (key : String) :
    fileValue? w key = valueIn? settings key := by
  rw [fileValue?, h]
  rfl

theorem statusOf_eq {w : Workspace} {settings : List (String × String)}
    (h : w.settings? = some settings) (key : String) :
    statusOf w key = ⟨key, found? w.environment settings key⟩ := by
  rw [statusOf, environmentValue?_eq, fileValue?_eq h, found?]
  cases valueIn? w.environment key with
  | some value => rfl
  | none => cases valueIn? settings key <;> rfl

theorem found?_environment {environment : List (String × String)} {key value : String}
    (h : valueIn? environment key = some value) (settings : List (String × String)) :
    found? environment settings key = some (.environment, value) := by
  rw [found?, h]

theorem value_found?_file {environment : List (String × String)} {key : String}
    (h : valueIn? environment key = none) (settings : List (String × String)) :
    (found? environment settings key).map (·.2) = valueIn? settings key := by
  rw [found?, h]
  cases valueIn? settings key <;> rfl

theorem get?_environment {w : Workspace} {key value : String}
    (h : valueIn? w.environment key = some value) : get? key w = .ok (some value) w := by
  unfold get?
  rw [get_bind, environmentValue?_eq, h]
  rfl

theorem get?_loaded {w w' : Workspace} {key : String} (h : valueIn? w.environment key = none)
    (hload : load w = .ok () w') : get? key w = .ok (fileValue? w' key) w' := by
  unfold get?
  rw [get_bind, environmentValue?_eq, h]
  exact bind_eq_of_ok hload

theorem get?_failed {w w' : Workspace} {key : String} {e : Failure}
    (h : valueIn? w.environment key = none) (hload : load w = .error e w') :
    get? key w = .error e w' := by
  unfold get?
  rw [get_bind, environmentValue?_eq, h]
  exact bind_eq_of_error hload

theorem perform_of_get? {w w' : Workspace} {key : String} {value? : Option String}
    (h : get? key w = .ok value? w') (other? : Option String) (other : Int) :
    (Call.get key other?).perform w = .ok (.value (value?.or other?)) w' ∧
      (Call.getInt key other).perform w =
        .ok (.number ((value?.bind Unicode.parseInt?).getD other)) w' := by
  constructor
  · cases value? with
    | none => exact bind_eq_of_ok (bind_eq_of_ok h)
    | some value => exact bind_eq_of_ok (bind_eq_of_ok h)
  · cases value? with
    | none => exact bind_eq_of_ok (bind_eq_of_ok h)
    | some value => exact bind_eq_of_ok (bind_eq_of_ok h)

theorem perform_loaded {w w' : Workspace} {call : Call} {settings : List (String × String)}
    (hneeds : Occasion.needsFile ⟨outsideOf w, call⟩ = true) (hload : load w = .ok () w')
    (hsame : w'.environment = w.environment) (hsettings : w'.settings? = some settings) :
    call.perform w = .ok (call.reply w.environment settings) w' := by
  cases call with
  | get key other? =>
    have hnone : valueIn? w.environment key = none := Option.isNone_iff_eq_none.mp hneeds
    rw [(perform_of_get? (get?_loaded hnone hload) other? 0).1, fileValue?_eq hsettings, Call.reply]
    simp only [value_found?_file hnone]
  | getInt key other =>
    have hnone : valueIn? w.environment key = none := Option.isNone_iff_eq_none.mp hneeds
    rw [(perform_of_get? (get?_loaded hnone hload) none other).2, fileValue?_eq hsettings,
      Call.reply]
    simp only [value_found?_file hnone]
  | status =>
    have hstatus : keys.map (fun k => statusOf w' k.1) =
        keys.map fun k => ⟨k.1, found? w.environment settings k.1⟩ :=
      List.map_congr_left fun k _ => hsame ▸ statusOf_eq hsettings k.1
    rw [Call.reply, ← hstatus]
    exact bind_eq_of_ok (bind_eq_of_ok hload)
  | load => exact bind_eq_of_ok hload
  | forget => exact absurd hneeds Bool.false_ne_true

theorem perform_failed {w w' : Workspace} {call : Call} {e : Failure}
    (hneeds : Occasion.needsFile ⟨outsideOf w, call⟩ = true) (hload : load w = .error e w') :
    call.perform w = .error e w' := by
  cases call with
  | get key other? =>
    exact bind_eq_of_error (bind_eq_of_error (get?_failed (Option.isNone_iff_eq_none.mp hneeds) hload))
  | getInt key other =>
    exact bind_eq_of_error (bind_eq_of_error (get?_failed (Option.isNone_iff_eq_none.mp hneeds) hload))
  | status => exact bind_eq_of_error (bind_eq_of_error hload)
  | load => exact bind_eq_of_error hload
  | forget => exact absurd hneeds Bool.false_ne_true

theorem perform_unneeding {w : Workspace} {call : Call}
    (hneeds : Occasion.needsFile ⟨outsideOf w, call⟩ = false)
    (settings : List (String × String)) :
    call.perform w = .ok (call.reply w.environment settings)
      (if call = .forget then { w with settings? := none } else w) := by
  cases call with
  | get key other? =>
    obtain ⟨value, hvalue⟩ : ∃ value, valueIn? w.environment key = some value :=
      Option.isSome_iff_exists.mp (Option.isNone_eq_false_iff.mp hneeds)
    rw [(perform_of_get? (get?_environment hvalue) other? 0).1, Call.reply]
    simp only [found?_environment hvalue]
    rfl
  | getInt key other =>
    obtain ⟨value, hvalue⟩ : ∃ value, valueIn? w.environment key = some value :=
      Option.isSome_iff_exists.mp (Option.isNone_eq_false_iff.mp hneeds)
    rw [(perform_of_get? (get?_environment hvalue) none other).2, Call.reply]
    simp only [found?_environment hvalue]
    rfl
  | status => exact absurd hneeds.symm Bool.false_ne_true
  | load => exact absurd hneeds.symm Bool.false_ne_true
  | forget => rfl

/-- What a call does, whatever the surroundings have become. -/
inductive Does (now : Occasion) (w : Workspace) : Prop where
  | answers (settings : List (String × String))
      (hneeds : now.needsFile = true)
      (hsettings : w.settings?.or now.outside.settings? = some settings)
      (hanswer : now.answer w = .ok (now.call.reply now.outside.environment settings))
      (hleaves : (now.leaves w).settings? = some settings)
  | fails (f : Failure)
      (hneeds : now.needsFile = true)
      (hsettings : w.settings? = none)
      (hreading : now.outside.reading = .error f)
      (hanswer : now.answer w = .error f)
      (hleaves : (now.leaves w).settings? = none)
  | unneeding
      (hneeds : now.needsFile = false)
      (hanswer : ∀ settings, now.answer w =
        .ok (now.call.reply now.outside.environment settings))
      (hleaves : (now.leaves w).settings? = if now.call = .forget then none else w.settings?)

theorem does (now : Occasion) (w : Workspace) : Does now w := by
  by_cases hneeds : now.needsFile = true
  · rcases load_cases (now.outside.around w) with
      ⟨settings, log, hsettings, hload⟩ | ⟨f, log, hnone, hreading, hload⟩
    · have hperform := perform_loaded (w := now.outside.around w) hneeds hload rfl rfl
      refine .answers settings hneeds hsettings ?_ ?_
      · rw [Occasion.answer, hperform]
        rfl
      · rw [Occasion.leaves, hperform]
    · have hperform := perform_failed (w := now.outside.around w) hneeds hload
      refine .fails f hneeds hnone hreading ?_ ?_
      · rw [Occasion.answer, hperform]
      · rw [Occasion.leaves, hperform]
        exact hnone
  · have hunneeding := Bool.eq_false_iff.mpr hneeds
    have hperform := perform_unneeding (w := now.outside.around w) hunneeding
    refine .unneeding hunneeding (fun settings => ?_) ?_
    · rw [Occasion.answer, hperform settings]
      rfl
    · rw [Occasion.leaves, hperform []]
      by_cases hforget : now.call = .forget
      · simp only [hforget, if_true]
      · simp only [hforget, if_false]
        rfl

/-! ### Histories -/

theorem settings?_leaves (now : Occasion) (w : Workspace) :
    (now.leaves w).settings? =
      if now.call = .forget then none
      else if now.needsFile then w.settings?.or now.outside.settings? else w.settings? := by
  have hforget : now.needsFile = true → now.call ≠ .forget := by
    intro hneeds hcall
    rw [Occasion.needsFile, hcall] at hneeds
    exact Bool.false_ne_true hneeds
  cases does now w with
  | answers settings hneeds hsettings _ hleaves =>
    rw [hleaves, if_neg (hforget hneeds), if_pos hneeds, hsettings]
  | fails f hneeds hsettings hreading _ hleaves =>
    rw [hleaves, if_neg (hforget hneeds), if_pos hneeds, hsettings, Outside.settings?, hreading]
    rfl
  | unneeding hneeds _ hleaves =>
    rw [hleaves, hneeds]
    rfl

theorem after_append (past later : List Occasion) (w : Workspace) :
    after (past ++ later) w = after later (after past w) :=
  List.foldl_append

theorem settings?_after (tree : Tree) (cwd : Place) (environment : List (String × String))
    (past : List Occasion) :
    (after past (Workspace.ofTree tree cwd environment)).settings? = snapshot? past := by
  induction past using List.reverseRecOn with
  | nil => rfl
  | append_singleton past now ih =>
    rw [after_append, snapshot?_append_one, ← ih]
    exact settings?_leaves now _

theorem settings?_after_of_held {w : Workspace} {settings : List (String × String)}
    (hheld : w.settings? = some settings) {later : List Occasion}
    (hlater : ∀ now ∈ later, now.call ≠ .forget) : (after later w).settings? = some settings := by
  induction later generalizing w with
  | nil => exact hheld
  | cons now later ih =>
    refine ih ?_ fun next hnext => hlater next (List.mem_cons_of_mem _ hnext)
    rw [settings?_leaves, if_neg (hlater now List.mem_cons_self), hheld]
    exact ite_self _

theorem answer_eq {w : Workspace} {now : Occasion} (settings : List (String × String))
    (h : now.needsFile = true → w.settings?.or now.outside.settings? = some settings) :
    now.answer w = .ok (now.call.reply now.outside.environment settings) := by
  cases does now w with
  | answers settings' hneeds hsettings hanswer _ =>
    rw [hanswer, Option.some.inj (hsettings.symm.trans (h hneeds))]
  | fails f hneeds hsettings hreading _ _ =>
    have hnone := h hneeds
    rw [hsettings, Outside.settings?, hreading] at hnone
    cases hnone
  | unneeding _ hanswer _ => exact hanswer settings

theorem answer_eq_error_iff {w : Workspace} {now : Occasion} {f : Failure} :
    now.answer w = .error f ↔
      now.needsFile = true ∧ w.settings? = none ∧ now.outside.reading = .error f := by
  cases does now w with
  | answers settings hneeds hsettings hanswer _ =>
    constructor
    · intro h
      rw [hanswer] at h
      cases h
    · rintro ⟨-, hnone, hreading⟩
      rw [hnone, Outside.settings?, hreading] at hsettings
      cases hsettings
  | fails f' hneeds hsettings hreading hanswer _ =>
    rw [hanswer]
    constructor
    · intro h
      cases h
      exact ⟨hneeds, hsettings, hreading⟩
    · rintro ⟨-, -, hreading'⟩
      exact congrArg _ (Except.error.inj (hreading.symm.trans hreading'))
  | unneeding hneeds hanswer _ =>
    constructor
    · intro h
      rw [hanswer []] at h
      cases h
    · rintro ⟨hneeds', -⟩
      exact absurd (hneeds.symm.trans hneeds') Bool.false_ne_true

theorem get_eq {w : Workspace} {o : Outside} {key : String} {other? : Option String}
    (settings : List (String × String))
    (h : valueIn? o.environment key = none → w.settings?.or o.settings? = some settings) :
    Occasion.answer ⟨o, .get key other?⟩ w =
      .ok (.value (((found? o.environment settings key).map (·.2)).or other?)) := by
  refine answer_eq settings fun hneeds => h ?_
  exact Option.isNone_iff_eq_none.mp hneeds

theorem getInt_of_get {w : Workspace} {o : Outside} {key : String} {value? : Option String}
    (h : Occasion.answer ⟨o, .get key none⟩ w = .ok (.value value?)) (other : Int) :
    Occasion.answer ⟨o, .getInt key other⟩ w =
      .ok (.number ((value?.bind Unicode.parseInt?).getD other)) := by
  -- both need the file at the same time, and then they read the same settings
  have hsame : ∀ settings, (Occasion.needsFile ⟨o, .getInt key other⟩ = true →
        w.settings?.or o.settings? = some settings) →
      Occasion.answer ⟨o, .get key none⟩ w = .ok ((Call.get key none).reply o.environment settings) →
      Occasion.answer ⟨o, .getInt key other⟩ w =
        .ok (.number ((value?.bind Unicode.parseInt?).getD other)) := by
    intro settings hsettings hanswer
    have hvalue : (found? o.environment settings key).map (·.2) = value? := by
      rw [h, Call.reply, Option.or_none] at hanswer
      exact (Answer.value.inj (Except.ok.inj hanswer)).symm
    rw [answer_eq settings hsettings, Call.reply]
    simp only [hvalue]
  cases does ⟨o, .get key none⟩ w with
  | answers settings _ hsettings hanswer _ => exact hsame settings (fun _ => hsettings) hanswer
  | fails f _ _ _ hanswer _ =>
    rw [hanswer] at h
    exact absurd h (by simp)
  | unneeding hneeds hanswer _ =>
    refine hsame [] (fun hneeds' => ?_) (hanswer [])
    exact absurd (hneeds.symm.trans hneeds') Bool.false_ne_true

theorem get_of_status {w : Workspace} {o : Outside} {found : List Status}
    (h : Occasion.answer ⟨o, .status⟩ w = .ok (.statuses found)) {s : Status} (hs : s ∈ found)
    {w' : Workspace} (hw' : w' ∈ [w, Occasion.leaves ⟨o, .status⟩ w]) :
    Occasion.answer ⟨o, .get s.key none⟩ w' = .ok (.value (s.found?.map (·.2))) := by
  cases does ⟨o, .status⟩ w with
  | answers settings _ hsettings hanswer hleaves =>
    rw [h, Call.reply] at hanswer
    obtain rfl : found = keys.map fun k => ⟨k.1, found? o.environment settings k.1⟩ :=
      Answer.statuses.inj (Except.ok.inj hanswer)
    obtain ⟨k, -, rfl⟩ := List.mem_map.mp hs
    have hw'settings : w'.settings?.or o.settings? = some settings := by
      rcases List.mem_pair.mp hw' with rfl | rfl
      · exact hsettings
      · rw [hleaves]
        rfl
    rw [get_eq settings fun _ => hw'settings, Option.or_none]
  | fails f _ _ _ hanswer _ =>
    rw [hanswer] at h
    exact absurd h (by simp)
  | unneeding hneeds _ _ => exact absurd hneeds.symm Bool.false_ne_true

/-- What a session answers that has gone through a history. -/
structure Remembers (past : List Occasion) (w : Workspace) : Prop where
  held : w.settings? = snapshot? past
  /-- Settings that are held stay the same until they are forgotten. -/
  kept : ∀ settings, snapshot? past = some settings →
    ∀ later : List Occasion, (∀ now ∈ later, now.call ≠ .forget) →
      (after later w).settings? = some settings
  environment : ∀ o key other? value, valueIn? o.environment key = some value →
    Occasion.answer ⟨o, .get key other?⟩ w = .ok (.value (some value))
  file : ∀ o key other? settings, valueIn? o.environment key = none →
    (snapshot? past).or o.settings? = some settings →
    Occasion.answer ⟨o, .get key other?⟩ w = .ok (.value ((valueIn? settings key).or other?))
  number : ∀ o key other value?,
    Occasion.answer ⟨o, .get key none⟩ w = .ok (.value value?) →
    Occasion.answer ⟨o, .getInt key other⟩ w =
      .ok (.number ((value?.bind Unicode.parseInt?).getD other))
  /-- A call fails if it needs a file, none is held, and reading the nearest one fails. -/
  fails_iff : ∀ (now : Occasion) (f : Failure), now.answer w = .error f ↔
    now.needsFile = true ∧ snapshot? past = none ∧ now.outside.reading = .error f
  failed : ∀ (now : Occasion) (e : Failure), now.answer w = .error e →
    (now.leaves w).settings? = none
  status : ∀ o settings, (snapshot? past).or o.settings? = some settings →
    Occasion.answer ⟨o, .status⟩ w =
      .ok (.statuses (keys.map fun k => ⟨k.1, found? o.environment settings k.1⟩))
  /-- The status tells of each key what `get` would answer, before it and after it. -/
  agrees : ∀ o found, Occasion.answer ⟨o, .status⟩ w = .ok (.statuses found) →
    ∀ s ∈ found, ∀ w' ∈ [w, Occasion.leaves ⟨o, .status⟩ w],
      Occasion.answer ⟨o, .get s.key none⟩ w' = .ok (.value (s.found?.map (·.2)))
  shown : ∀ found, statusValue found = .object (found.map fun s => (s.key, .object [
    ("set", .bool s.found?.isSome),
    ("source", (s.found?.map fun f => Value.text f.1.text).getD .null),
    ("value", (s.found?.map fun f => Value.text f.2).getD .null)]))

theorem remembers_after (tree : Tree) (cwd : Place) (environment : List (String × String))
    (past : List Occasion) :
    Remembers past (after past (Workspace.ofTree tree cwd environment)) := by
  have hheld := settings?_after tree cwd environment past
  refine ⟨hheld, ?kept, ?environment, ?file, ?number, ?fails_iff, ?failed, ?status, ?agrees,
    ?shown⟩
  case kept => exact fun settings h later hlater => settings?_after_of_held (hheld.trans h) hlater
  case environment =>
    intro o key other? value h
    rw [get_eq [] fun hnone => absurd (h.symm.trans hnone) (Option.some_ne_none _),
      found?_environment h]
    rfl
  case file =>
    intro o key other? settings h hsettings
    rw [get_eq settings fun _ => hheld ▸ hsettings, value_found?_file h]
  case number => exact fun o key other value? h => getInt_of_get h other
  case fails_iff =>
    intro now e
    rw [answer_eq_error_iff, hheld]
  case failed =>
    intro now e h
    obtain ⟨hneeds, hnone, hreading⟩ := answer_eq_error_iff.mp h
    rw [settings?_leaves, if_pos hneeds, hnone, Outside.settings?, hreading]
    exact ite_self _
  case status => exact fun o settings hsettings => answer_eq settings fun _ => hheld ▸ hsettings
  case agrees => exact fun o found h s hs w' hw' => get_of_status h hs hw'
  case shown =>
    intro found
    rw [statusValue]
    refine congrArg _ (List.map_congr_left fun s _ => ?_)
    cases s.found? <;> rfl

end ILDump.Settings
