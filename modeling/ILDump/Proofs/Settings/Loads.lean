import ILDump.Settings.Lookup
import ILDump.Proofs.Workspace.Questions

/-!
# Loading settings

A load reads the nearest file of settings unless settings are held already. What it finds is
told from outside: by the contents of the files in the working directory and the four
directories above it. There may be no working directory, it may not be possible to tell whether
there is a file, and a file may not be UTF-8. Each of these stops the load, and then nothing is
held.
-/

namespace ILDump.Settings

/-- What a session finds outside of itself. -/
structure Outside where
  tree : Tree
  cwd : Place
  environment : List (String × String)

/-! ### The file -/

/-- The directories that are searched for a file of settings, the nearest first. -/
def searched (cwd : Place) (depth : Nat) : List Place :=
  (List.range depth).map fun up => cwd.take (cwd.length - up)

def fileIn (directory : Place) : Path :=
  ⟨.root, directory ++ [fileName]⟩

/-- Whether a search ends at a path: there is a file, or it cannot be told whether there is. -/
def endsAt (t : Tree) (p : Path) : Bool :=
  (t.refusal? [] p).isSome || t.isFile [] p

/-- Where a search from the working directory ends. -/
def Outside.nearest? (o : Outside) : Option Path :=
  ((searched o.cwd searchDepth).map fileIn).find? (endsAt o.tree)

/-- The settings of the nearest file in the working directory and the four directories above
    it; none if there is no file. There has to be a working directory, and what is nearest has to
    be a text. -/
def Outside.reading (o : Outside) : Except Failure (List (String × String)) :=
  if o.tree.node? o.cwd = some .directory then
    match o.nearest? with
    | none => .ok []
    | some p =>
      match o.tree.read [] p with
      | .error e => .error (.disk e p.text)
      | .ok content =>
        match Utf8.decode? content with
        | none => .error (.undecodable p.text)
        | some text => .ok (EnvFile.settings text)
  else .error (.astray .notFound)

def Outside.settings? (o : Outside) : Option (List (String × String)) :=
  o.reading.toOption

/-- Settings are looked for from the working directory, so it is there if any are found. -/
theorem Outside.standing {o : Outside} {settings : List (String × String)}
    (h : o.settings? = some settings) : o.tree.node? o.cwd = some .directory := by
  by_contra hgone
  rw [settings?, reading, if_neg hgone] at h
  cases h

theorem searched_succ (cwd : Place) (depth : Nat) :
    searched cwd (depth + 1) = cwd :: searched cwd.dropLast depth := by
  rw [searched, List.range_succ_eq_map, List.map_cons, List.map_map, Nat.sub_zero,
    List.take_length, searched]
  refine congrArg _ (List.map_congr_left fun up _ => ?_)
  rw [Function.comp_apply, List.dropLast_eq_take, List.take_take, List.length_take]
  congr 1
  omega

theorem searched_nil (depth : Nat) : ∀ directory ∈ searched [] depth, directory = [] := by
  intro directory hmem
  obtain ⟨up, -, rfl⟩ := List.mem_map.mp hmem
  exact List.take_nil

theorem endsAt_cases {t : Tree} {p : Path} (h : endsAt t p = true) :
    (∃ e, t.refusal? [] p = some e ∧ t.read [] p = .error e) ∨
      ∃ content, t.refusal? [] p = none ∧ t.isFile [] p = true ∧ t.read [] p = .ok content := by
  cases hrefusal : t.refusal? [] p with
  | some e => exact .inl ⟨e, rfl, Tree.read_of_refusal? hrefusal⟩
  | none =>
    have hfile : t.isFile [] p = true := by simpa [endsAt, hrefusal] using h
    obtain ⟨content, x, hlookup⟩ := Tree.isFile_iff.mp hfile
    exact .inr ⟨content, rfl, hfile, Tree.read_eq_ok_iff.mpr ⟨x, hlookup⟩⟩

theorem nearestFile_eq (t : Tree) (depth : Nat) (cwd : Place) :
    nearestFile t depth cwd =
      match ((searched cwd depth).map fileIn).find? (endsAt t) with
      | none => .ok none
      | some p =>
        match t.refusal? [] p with
        | some e => .error (.disk e p.text)
        | none => .ok (some p) := by
  induction depth generalizing cwd with
  | zero => rfl
  | succ depth ih =>
    have hunfold : nearestFile t (depth + 1) cwd =
        match t.refusal? [] (fileIn cwd) with
        | some e => .error (.disk e (fileIn cwd).text)
        | none =>
          if t.isFile [] (fileIn cwd) then .ok (some (fileIn cwd))
          else if cwd.isEmpty then .ok none else nearestFile t depth cwd.dropLast := rfl
    rw [hunfold, searched_succ, List.map_cons, List.find?_cons]
    cases hends : endsAt t (fileIn cwd) with
    | true =>
      obtain ⟨e, hrefusal, -⟩ | ⟨content, hrefusal, hfile, -⟩ := endsAt_cases hends
      · simp only [hrefusal]
      · simp only [hrefusal, hfile, if_true]
    | false =>
      obtain ⟨hrefusal, hfile⟩ : t.refusal? [] (fileIn cwd) = none ∧
          t.isFile [] (fileIn cwd) = false := by simpa [endsAt] using hends
      simp only [hrefusal, hfile, Bool.false_eq_true, if_false]
      cases cwd with
      | nil =>
        -- above the root there is only the root again
        have hnone : ((searched [] depth).map fileIn).find? (endsAt t) = none := by
          refine List.find?_eq_none.mpr fun p hp => ?_
          obtain ⟨directory, hdirectory, rfl⟩ := List.mem_map.mp hp
          rw [searched_nil depth directory hdirectory, hends]
          exact Bool.false_ne_true
        rw [List.dropLast_nil, hnone]
        rfl
      | cons name names => exact ih _

/-! ### Loading -/

def outsideOf (w : Workspace) : Outside :=
  ⟨w.tree, w.cwd, w.environment⟩

theorem reportLines_eq (numbers : List Nat) (w : Workspace) : ∃ log,
    (forIn numbers PUnit.unit fun number _ => do
      Session.log .warning (EnvFile.invalidMessage number)
      pure (ForInStep.yield PUnit.unit) : Session PUnit) w = .ok PUnit.unit { w with log } := by
  induction numbers generalizing w with
  | nil => exact ⟨w.log, rfl⟩
  | cons number numbers ih =>
    obtain ⟨log, hlog⟩ := ih { w with log := w.log.push ⟨.warning, EnvFile.invalidMessage number⟩ }
    rw [List.forIn_cons]
    exact ⟨log, hlog⟩

theorem readFrom_of_read {w : Workspace} {path : Path} {content : Bytes}
    (h : w.read path = .ok content) :
    ∃ log, readFrom path w =
      match (Utf8.decode? content).map EnvFile.settings with
      | some settings => .ok settings { w with log }
      | none => .error (.undecodable path.text) { w with log } := by
  have hread : Session.read path w = .ok (.ok content) w := by
    rw [← h]
    rfl
  cases hdecode : Utf8.decode? content with
  | none =>
    refine ⟨w.log, ?_⟩
    unfold readFrom
    rw [bind_eq_of_ok hread]
    simp only [hdecode]
    rfl
  | some text =>
    obtain ⟨log, hlog⟩ := reportLines_eq (EnvFile.invalidLines text) w
    refine ⟨log, ?_⟩
    unfold readFrom
    rw [bind_eq_of_ok hread]
    simp only [hdecode]
    rw [bind_eq_of_ok hlog]
    rfl

theorem load_held {w : Workspace} {held : List (String × String)} (h : w.settings? = some held) :
    load w = .ok () w := by
  unfold load
  rw [get_bind, h]
  rfl

/-- What a load does with the file it has found. -/
def keepFrom (path : Path) : Session Unit := do
  Session.log .info ("Loading configuration from: " ++ path.text)
  let settings ← readFrom path
  modify fun w => { w with settings? := some settings }

theorem keepFrom_of_read {w : Workspace} {path : Path} {content : Bytes}
    (h : w.read path = .ok content) :
    ∃ log, keepFrom path w =
      match (Utf8.decode? content).map EnvFile.settings with
      | some settings => .ok () { w with settings? := some settings, log }
      | none => .error (.undecodable path.text) { w with log } := by
  let text := "Loading configuration from: " ++ path.text
  let told : Workspace := { w with log := w.log.push ⟨.info, text⟩ }
  have hsaid : Session.log .info text w = .ok PUnit.unit told := rfl
  have htold : told.read path = .ok content := h
  obtain ⟨log, hlog⟩ := readFrom_of_read htold
  refine ⟨log, ?_⟩
  unfold keepFrom
  rw [bind_eq_of_ok hsaid]
  cases hdecode : (Utf8.decode? content).map EnvFile.settings with
  | some settings =>
    rw [hdecode] at hlog
    rw [bind_eq_of_ok hlog]
    rfl
  | none =>
    rw [hdecode] at hlog
    exact bind_eq_of_error hlog

theorem fileFor_eq (w : Workspace) :
    fileFor w =
      if w.tree.node? w.cwd = some .directory then
        match (outsideOf w).nearest? with
        | none => .ok none
        | some p =>
          match w.tree.refusal? [] p with
          | some e => .error (.disk e p.text)
          | none => .ok (some p)
      else .error (.astray .notFound) := by
  unfold fileFor Workspace.standing
  split
  · exact nearestFile_eq w.tree searchDepth w.cwd
  · rfl

theorem load_searching {w : Workspace} (h : w.settings? = none) :
    load w = (Session.ask fileFor >>= fun
      | some path => keepFrom path
      | none => modify fun w => { w with settings? := some [] } : Session Unit) w := by
  unfold load
  rw [get_bind, h]
  rfl

theorem load_cases (w : Workspace) :
    (∃ held log, w.settings?.or (outsideOf w).settings? = some held ∧
      load w = .ok () { w with settings? := some held, log }) ∨
    ∃ f log, w.settings? = none ∧ (outsideOf w).reading = .error f ∧
      load w = .error f { w with log } := by
  cases hheld : w.settings? with
  | some held =>
    refine .inl ⟨held, w.log, rfl, ?_⟩
    rw [load_held hheld, ← hheld]
  | none =>
    rw [load_searching hheld, Option.none_or, bind_eq_of_leaving (Session.ask_eq fileFor w),
      fileFor_eq]
    unfold Outside.settings? Outside.reading
    have htree : (outsideOf w).tree = w.tree := rfl
    have hcwd : (outsideOf w).cwd = w.cwd := rfl
    rw [htree, hcwd]
    by_cases hstanding : w.tree.node? w.cwd = some .directory
    · rw [if_pos hstanding, if_pos hstanding]
      cases hnearest : (outsideOf w).nearest? with
      | none => exact .inl ⟨[], w.log, rfl, rfl⟩
      | some p =>
        obtain ⟨e, hrefusal, hread⟩ | ⟨content, hrefusal, -, hread⟩ :=
          endsAt_cases (List.find?_some hnearest)
        · rw [htree] at hrefusal hread
          simp only [hrefusal, hread]
          exact .inr ⟨_, w.log, trivial, rfl, by rw [← hheld]⟩
        · rw [htree] at hrefusal hread
          simp only [hrefusal, hread]
          obtain ⟨directory, -, rfl⟩ := List.mem_map.mp (List.mem_of_find?_eq_some hnearest)
          have hfound : w.read (fileIn directory) = .ok content := hread
          obtain ⟨log, hlog⟩ := keepFrom_of_read hfound
          cases hdecode : Utf8.decode? content with
          | some text =>
            rw [hdecode] at hlog
            exact .inl ⟨_, log, rfl, hlog⟩
          | none =>
            rw [hdecode] at hlog
            exact .inr ⟨_, log, trivial, rfl, by rw [← hheld]; exact hlog⟩
    · rw [if_neg hstanding, if_neg hstanding]
      exact .inr ⟨_, w.log, rfl, rfl, by rw [← hheld]⟩

end ILDump.Settings
