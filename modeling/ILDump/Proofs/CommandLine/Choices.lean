import ILDump.CommandLine.Run
import ILDump.Proofs.Settings.Snapshots

/-!
# What a command goes by

A command weighs options against settings before it does anything else, and the first
setting that is not in the environment has a file of settings read. `Opening` says how little
that is: nothing is printed and nothing is written. It is an invariant of all look-ups, so
what they come to does not depend on their order, and can be told from the options, the
environment and the file alone. This is what `ListingOptions.choices` does.
-/

namespace ILDump

namespace Settings

/-! ### Single look-ups -/

/-- What a setting is set to, in the environment or else in a file. -/
def value? (environment settings : List (String × String)) (key : String) : Option String :=
  (found? environment settings key).map (·.2)

/-- What is given, unless it is empty, or else what is set, unless that is empty. -/
def chosen? (given? set? : Option String) : Option String :=
  (given?.filter (· ≠ "")).or (set?.filter (· ≠ ""))

/-- A session that has looked settings up and done nothing else. -/
structure Opening (o : Outside) (settings : List (String × String)) (w : Workspace) : Prop where
  tree : w.tree = o.tree
  cwd : w.cwd = o.cwd
  environment : w.environment = o.environment
  unprinted : w.printed = #[]
  held : w.settings? = none ∨ w.settings? = some settings

theorem Opening.ofTree (o : Outside) (settings : List (String × String)) :
    Opening o settings (.ofTree o.tree o.cwd o.environment) :=
  ⟨rfl, rfl, rfl, rfl, .inl rfl⟩

theorem Opening.outsideOf_eq {o : Outside} {settings : List (String × String)} {w : Workspace}
    (h : Opening o settings w) : outsideOf w = o := by
  rw [outsideOf, h.tree, h.cwd, h.environment]

theorem firstNonempty?_singleton (s? : Option String) :
    firstNonempty? [s?] = s?.filter (· ≠ "") := by
  cases s? with
  | none => rfl
  | some s =>
    by_cases hs : s = ""
    · simp [firstNonempty?, Option.filter, hs]
    · simp [firstNonempty?, Option.filter, hs]

section

variable {o : Outside} {settings : List (String × String)} (h : o.settings? = some settings)
include h

/-- The file can be read, so loading it does no more than to hold what is in it. -/
theorem Opening.load {w : Workspace} (hw : Opening o settings w) :
    ∃ w', Settings.load w = .ok () w' ∧ Opening o settings w' ∧ w'.settings? = some settings := by
  rcases load_cases w with ⟨found, log, hfound, hload⟩ | ⟨f, log, -, hreading, -⟩
  · obtain rfl : found = settings := by
      rw [hw.outsideOf_eq, h] at hfound
      rcases hw.held with hheld | hheld
      · rw [hheld, Option.none_or] at hfound
        exact (Option.some.inj hfound).symm
      · rw [hheld, Option.some_or] at hfound
        exact (Option.some.inj hfound).symm
    exact ⟨_, hload, ⟨hw.tree, hw.cwd, hw.environment, hw.unprinted, .inr rfl⟩, rfl⟩
  · rw [hw.outsideOf_eq] at hreading
    rw [Outside.settings?, hreading] at h
    cases h

theorem gives_get? (key : String) :
    Gives (Opening o settings) (get? key) (.ok (value? o.environment settings key)) := by
  intro w hw
  cases hvalue : valueIn? w.environment key with
  | some value =>
    refine ⟨w, hw, ?_⟩
    rw [hw.environment] at hvalue
    rw [value?, found?_environment hvalue]
    exact get?_environment (hw.environment ▸ hvalue)
  | none =>
    obtain ⟨w', hload, hw', hheld⟩ := hw.load h
    refine ⟨w', hw', ?_⟩
    rw [get?_loaded hvalue hload, fileValue?_eq hheld]
    rw [hw.environment] at hvalue
    rw [value?, value_found?_file hvalue]

theorem gives_optionOr (given? : Option String) (key : String) :
    Gives (Opening o settings) (optionOr given? key)
      (.ok (chosen? given? (value? o.environment settings key))) := by
  unfold optionOr chosen?
  rw [firstNonempty?_singleton]
  cases given?.filter (· ≠ "") with
  | some value => exact .pure (some value)
  | none =>
    refine (gives_get? h key).bind_ok ?_
    rw [firstNonempty?_singleton, Option.none_or]
    exact .pure _

theorem gives_getInt (key : String) (other : Int) :
    Gives (Opening o settings) (getInt key other)
      (.ok (((value? o.environment settings key).bind Unicode.parseInt?).getD other)) := by
  refine (gives_get? h key).bind_ok ?_
  cases value? o.environment settings key with
  | some value => exact .pure _
  | none => exact .pure other

theorem gives_effectiveLogLevel (given? : Option String) :
    ∃ level, Gives (Opening o settings) (effectiveLogLevel given?) (.ok level) :=
  ⟨_, (gives_optionOr h given? logLevelKey).bind_ok (.pure _)⟩

end

end Settings

namespace CommandLine

open Settings (Opening Outside chosen? value? gives_optionOr gives_getInt)

/-! ### All choices -/

/-- What a command for listings goes by, once options and settings are weighed. -/
structure Choices where
  toolPath? : Option Path
  /-- The seconds that the tool may run; zero is no limit. -/
  timeout : Int
  outputRoot? : Option Path
  orderName : String

def ListingOptions.choices (options : ListingOptions)
    (environment settings : List (String × String)) : Choices where
  toolPath? := (chosen? options.toolPath.text?
    (value? environment settings Settings.toolKey)).map Path.ofString
  timeout := ((value? environment settings Settings.timeoutKey).bind Unicode.parseInt?).getD 0
  outputRoot? := (chosen? options.outputDirectory.text?
    (value? environment settings Settings.outputKey)).map Path.ofString
  orderName := (chosen? options.memberOrder.text?
    (value? environment settings Settings.orderKey)).getD "name"

namespace Choices

variable (choices : Choices)

def tool : Tool :=
  .ofOptions choices.toolPath? choices.timeout

def order? : Option MemberOrder :=
  MemberOrder.ofName? choices.orderName

theorem order?_eq_none_iff :
    choices.order? = none ↔
      Unicode.lower choices.orderName ∉ ["name", "declaration", "token"] := by
  rw [order?, MemberOrder.ofName?, MemberOrder.ofText?, List.find?_eq_none]
  constructor
  · intro hnone hmem
    simp only [List.mem_cons, List.not_mem_nil, or_false] at hmem
    rcases hmem with hname | hname | hname
    · exact hnone .byName (by decide) (decide_eq_true hname.symm)
    · exact hnone .asDeclared (by decide) (decide_eq_true hname.symm)
    · exact hnone .byToken (by decide) (decide_eq_true hname.symm)
  · intro hnot order _ htext
    refine hnot ?_
    rw [← of_decide_eq_true htext]
    cases order <;> decide

end Choices

/-- The plan of a run in a working directory. -/
def ListingOptions.plan (options : ListingOptions) (choices : Choices) (cwd : Place) :
    Pipeline.Plan :=
  .ofOptions ⟨.root, cwd⟩ choices.outputRoot? options.keepStructure (options.pattern.text?.getD "")

/-- The tool, and the disassembler behind it if it is wanted with some order. -/
def stagesFor (x : Externals) (tool : Tool) (order? : Option MemberOrder) :
    List (Stage Workspace) :=
  Tool.stage (Tool.workspaceWith x.launch) tool ::
    (order?.map (Pipeline.disassemblerWith x.decoders)).toList

section

variable {o : Outside} {settings : List (String × String)} (h : o.settings? = some settings)
include h

theorem gives_ofSettings (options : ListingOptions) :
    Gives (Opening o settings) (Tool.ofSettings options.toolPath.text? none)
      (.ok (options.choices o.environment settings).tool) :=
  (gives_optionOr h _ _).bind_ok ((gives_getInt h _ _).bind_ok (.pure _))

theorem gives_memberOrder (options : ListingOptions) :
    Gives (Opening o settings) (memberOrder options.memberOrder)
      (match (options.choices o.environment settings).order? with
        | some order => .ok order
        | none => .error (.diagnosed .options (.parameterInvalid "member order"
            (.text (options.choices o.environment settings).orderName) MemberOrder.choices))) := by
  refine (gives_optionOr h _ _).bind_ok ?_
  unfold Choices.order? ListingOptions.choices
  dsimp only [MemberOrder.text]
  cases MemberOrder.ofName? ((chosen? options.memberOrder.text?
      (value? o.environment settings Settings.orderKey)).getD "name") with
  | some order => exact .pure order
  | none => exact .throw _

/-- The working directory is there, as the settings were looked for from it. -/
theorem gives_workingDirectory (outputRoot? : Option String) :
    Gives (Opening o settings) (workingDirectory outputRoot?) (.ok ⟨.root, o.cwd⟩) := by
  intro w hw
  have hcwd : w.cwdPath = ⟨.root, o.cwd⟩ := by
    rw [Workspace.cwdPath, hw.cwd]
  refine ⟨w, hw, ?_⟩
  rw [← hcwd]
  unfold workingDirectory
  split
  · rw [Session.ask_eq, Workspace.standing_of_directory]
    · rfl
    · rw [hw.tree, hw.cwd]
      exact Outside.standing h
  · rfl

variable (x : Externals)

theorem gives_stages {options : ListingOptions}
    (horder : options.replaces = true → (options.choices o.environment settings).order? ≠ none) :
    Gives (Opening o settings) (stages x options)
      (.ok (stagesFor x (options.choices o.environment settings).tool
        (if options.replaces then (options.choices o.environment settings).order? else none))) := by
  refine (gives_ofSettings h options).bind_ok ?_
  cases hreplaces : options.replaces with
  | false => exact .pure _
  | true =>
    obtain ⟨order, hsome⟩ := Option.ne_none_iff_exists'.mp (horder hreplaces)
    have hgives := gives_memberOrder h options
    rw [hsome] at hgives
    rw [if_pos rfl, if_pos rfl, hsome]
    exact hgives.bind_ok (.pure _)

theorem gives_stages_refused {options : ListingOptions} (hreplaces : options.replaces = true)
    (horder : (options.choices o.environment settings).order? = none) :
    ∃ d, Gives (Opening o settings) (stages x options) (.error (.diagnosed .options d)) := by
  refine ⟨.parameterInvalid "member order"
    (.text (options.choices o.environment settings).orderName) MemberOrder.choices, ?_⟩
  refine (gives_ofSettings h options).bind_ok ?_
  have hgives := gives_memberOrder h options
  rw [horder] at hgives
  rw [hreplaces, if_pos rfl]
  exact hgives.bind fun order => .pure [_, Pipeline.disassemblerWith x.decoders order]

end

end CommandLine

end ILDump
