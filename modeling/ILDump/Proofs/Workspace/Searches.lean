import ILDump.Search.Below
import ILDump.Proofs.Workspace.Trees

/-!
# What a search finds

Everything a search finds is reached from where it started by names of the tree and of the
pattern. A tree that grows keeps what was found; what is found in it besides are files that are
new, as long as the pattern does not go up, since then a file is reached from the start
through the directories it is in.
-/

namespace ILDump

/-! ### Patterns -/

namespace PatternPart

/-- All names that a component of a pattern brings along are good ones. -/
def Uses (good : String → Prop) : PatternPart → Prop
  | .named name => good name
  | .above => good Path.up
  | _ => True

/-- A component of a pattern that was read is written with a name of its own at most. -/
theorem ofString_cases {s : String} {part : PatternPart} (h : ofString s = .ok part) :
    (part = .anyDepth ∨ ∃ glyphs, part = .matching glyphs) ∨ (part = .above ∧ s = Path.up) ∨
      (part = .named s ∧ s ≠ Path.up) := by
  unfold ofString at h
  split at h
  · cases h
    exact .inl (.inl rfl)
  · split at h
    · rename_i hup
      cases h
      exact .inr (.inl ⟨rfl, hup⟩)
    · rename_i hup
      dsimp only at h
      split at h
      · cases h
      · split at h
        · cases h
          exact .inl (.inr ⟨_, rfl⟩)
        · cases h
          exact .inr (.inr ⟨rfl, hup⟩)

end PatternPart

theorem exists_of_mapM_eq_ok {ε α β : Type} {f : α → Except ε β} : ∀ {xs : List α} {ys : List β},
    xs.mapM f = .ok ys → ∀ y ∈ ys, ∃ x ∈ xs, f x = .ok y
  | [], ys, h, y, hy => by
    obtain rfl : [] = ys := Except.ok.inj h
    cases hy
  | x :: xs, ys, h, y, hy => by
    rw [List.mapM_cons] at h
    cases hx : f x with
    | error e =>
      rw [hx] at h
      cases h
    | ok y' =>
      cases hxs : xs.mapM f with
      | error e =>
        rw [hx, hxs] at h
        cases h
      | ok ys' =>
        rw [hx, hxs] at h
        obtain rfl : y' :: ys' = ys := Except.ok.inj h
        rcases List.mem_cons.mp hy with rfl | hy
        · exact ⟨x, by simp, hx⟩
        · obtain ⟨x', hx', heq⟩ := exists_of_mapM_eq_ok hxs y hy
          exact ⟨x', by simp [hx'], heq⟩

namespace SearchPattern

variable {s : String} {pattern : SearchPattern}

/-- The components of a pattern are read from components of a path. -/
theorem exists_of_mem_parts (h : ofString s = .ok pattern) {part : PatternPart}
    (hpart : part ∈ pattern.parts) :
    ∃ name ∈ (Path.ofString s).parts, PatternPart.ofString name = .ok part := by
  unfold ofString at h
  simp only [bind, Except.bind] at h
  split at h
  · cases h
  · cases hparts : (Path.ofString s).parts.mapM PatternPart.ofString with
    | error e =>
      rw [hparts] at h
      cases h
    | ok parts =>
      rw [hparts] at h
      obtain rfl := (Except.ok.inj h).symm
      exact exists_of_mapM_eq_ok hparts part hpart

theorem uses {good : String → Prop} (h : ofString s = .ok pattern)
    (hgood : ∀ name ∈ (Path.ofString s).parts, good name) :
    ∀ part ∈ pattern.parts, part.Uses good := by
  intro part hpart
  obtain ⟨name, hname, hread⟩ := exists_of_mem_parts h hpart
  rcases PatternPart.ofString_cases hread with (rfl | ⟨_, rfl⟩) | ⟨rfl, rfl⟩ | ⟨rfl, -⟩
  · trivial
  · trivial
  · exact hgood _ hname
  · exact hgood _ hname

end SearchPattern

namespace Path

theorem below_nil (p : Path) : p.below [] = p := by
  rw [below, List.append_nil]

theorem below_below (p : Path) (xs ys : List String) :
    (p.below xs).below ys = p.below (xs ++ ys) := by
  rw [below, below, below, List.append_assoc]

end Path

/-! ### What is found is below -/

namespace Tree

variable {t t' : Tree} {cwd : Place}

theorem mem_inside {p : Place} {e : Place × Node} :
    e ∈ t.inside p ↔ e ∈ t.entries ∧ p <+: e.1 ∧ p.length < e.1.length := by
  simp [inside]

theorem mem_namesIn {here : Place} {name : String} (h : name ∈ t.namesIn here) :
    ∃ n, (here ++ [name], n) ∈ t.entries := by
  obtain ⟨e, he, hname⟩ := List.mem_filterMap.mp h
  obtain ⟨hmem, ⟨rest, hrest⟩, -⟩ := mem_inside.mp he
  split at hname
  · rename_i hlength
    have hone : rest.length = 1 := by
      have hl := congrArg List.length hrest
      rw [List.length_append] at hl
      omega
    obtain ⟨last, rfl⟩ := List.length_eq_one_iff.mp hone
    rw [← hrest, List.getLast?_concat] at hname
    obtain rfl := Option.some.inj hname
    exact ⟨e.2, by rw [hrest]; exact hmem⟩
  · cases hname

theorem mem_directoriesFrom {p d : Path} (h : d ∈ t.directoriesFrom cwd p) :
    d = p ∨ ∃ here names, t.locate cwd p = .ok here ∧ d = p.below names ∧
      (here ++ names, Node.directory) ∈ t.entries := by
  unfold directoriesFrom at h
  split at h
  · exact .inl (List.mem_singleton.mp h)
  · rename_i here hlocate
    rcases List.mem_cons.mp h with rfl | h
    · exact .inl rfl
    · obtain ⟨e, he, hd⟩ := List.mem_filterMap.mp h
      obtain ⟨hmem, ⟨rest, hrest⟩, -⟩ := mem_inside.mp he
      split at hd
      · rename_i hdirectory
        obtain rfl := (Option.some.inj hd).symm
        refine .inr ⟨here, e.1.drop here.length, hlocate, rfl, ?_⟩
        have hplace : here ++ e.1.drop here.length = e.1 := by
          rw [← hrest, List.drop_left]
        rw [hplace, ← hdirectory]
        exact hmem
      · cases hd

/-- What a pattern finds is below the path it starts from, under names of the tree and of the
    pattern. -/
theorem select_below {good : String → Prop} (h : t.Named good) :
    ∀ {parts : List PatternPart} {p q : Path}, (∀ part ∈ parts, part.Uses good) →
      q ∈ t.select cwd parts p → ∃ names, q = p.below names ∧ ∀ s ∈ names, good s
  | [], p, q, _, hq => by
    rw [select, List.mem_singleton] at hq
    exact ⟨[], by rw [hq, Path.below_nil], by simp⟩
  | part :: rest, p, q, hparts, hq => by
    -- the names that a first part is for stand in front of those for the rest
    have hfront : ∀ first : List String, (∀ s ∈ first, good s) →
        q ∈ t.select cwd rest (p.below first) →
          ∃ names, q = p.below names ∧ ∀ s ∈ names, good s := by
      intro first hfirst hd
      obtain ⟨names, rfl, hnames⟩ :=
        select_below h (fun part hpart => hparts part (by simp [hpart])) hd
      refine ⟨first ++ names, Path.below_below p first names, fun s hs => ?_⟩
      exact (List.mem_append.mp hs).elim (hfirst s) (hnames s)
    cases part with
    | anyDepth =>
      rw [select] at hq
      obtain ⟨d, hd, hq⟩ := List.mem_flatMap.mp hq
      rcases mem_directoriesFrom hd with rfl | ⟨here, names, -, rfl, hmem⟩
      · refine hfront [] (by simp) ?_
        rwa [Path.below_nil]
      · exact hfront names (fun s hs => h _ hmem s (List.mem_append_right _ hs)) hq
    | above =>
      rw [select] at hq
      have hup : good Path.up := hparts .above (by simp)
      exact hfront [Path.up] (by simpa using hup) hq
    | named name =>
      rw [select] at hq
      have hname : good name := hparts (.named name) (by simp)
      split at hq
      · exact hfront [name] (by simpa using hname) hq
      · cases hq
    | matching glyphs =>
      rw [select] at hq
      split at hq
      · cases hq
      · obtain ⟨found, hfound, hq⟩ := List.mem_flatMap.mp hq
        obtain ⟨name, hname, rfl⟩ := List.mem_map.mp (List.mem_filter.mp hfound).1
        obtain ⟨n, hmem⟩ := mem_namesIn (List.mem_filter.mp hname).1
        have hname : good name := h _ hmem name (by simp)
        exact hfront [name] (by simpa using hname) hq

theorem mem_filesBelow {p q : Path} {pattern : SearchPattern} :
    q ∈ t.filesBelow cwd p pattern ↔ pattern.directoriesOnly = false ∧ t.isDirectory cwd p = true ∧
      q ∈ t.select cwd (.anyDepth :: pattern.parts) p ∧ t.isFile cwd q = true := by
  unfold filesBelow
  cases hdirectories : pattern.directoriesOnly with
  | true => simp
  | false =>
    cases hp : t.isDirectory cwd p with
    | false => simp
    | true => simp

theorem anchor_of_mem_filesBelow {p q : Path} {pattern : SearchPattern}
    (h : q ∈ t.filesBelow cwd p pattern) : q.anchor = p.anchor := by
  have hparts : ∀ part : PatternPart, part.Uses fun _ => True := by
    intro part
    cases part <;> trivial
  have hnamed : t.Named fun _ => True := fun _ _ _ _ => trivial
  obtain ⟨names, rfl, -⟩ :=
    select_below hnamed (fun part _ => hparts part) (mem_filesBelow.mp h).2.2.1
  rfl

/-! ### Names below a path -/

theorem Proper.node?_of_append (h : t.Proper) {here more : Place} {n : Node}
    (hnode : t.node? (here ++ more) = some n) (hmore : more ≠ []) :
    t.node? here = some .directory := by
  induction more using List.reverseRecOn generalizing n with
  | nil => exact absurd rfl hmore
  | append_singleton more last ih =>
    have hparent := h.node?_dropLast hnode
    rw [← List.append_assoc, List.dropLast_concat] at hparent
    by_cases hnil : more = []
    · rwa [hnil, List.append_nil] at hparent
    · exact ih hparent hnil

/-- Nobody is kept from what is on the way to something. -/
theorem Proper.unbarred_of_append (h : t.Proper) {here more : Place} {name : String} {n : Node}
    (hnode : t.node? (here ++ [name] ++ more) = some n) : t.barrier? (here ++ [name]) = none := by
  have hthere : ∃ n, t.node? (here ++ [name]) = some n := by
    by_cases hmore : more = []
    · rw [hmore, List.append_nil] at hnode
      exact ⟨n, hnode⟩
    · exact ⟨_, h.node?_of_append hnode hmore⟩
  obtain ⟨n, hthere⟩ := hthere
  exact (h.room _ (mem_entries_of_node? (by simp) hthere)).unbarred

/-- Names of something that exists can be followed. -/
theorem Proper.walk_names (h : t.Proper) : ∀ {names : List String} {here : Place} {n : Node},
    Path.up ∉ names → t.node? (here ++ names) = some n → t.walk here names = .ok (here ++ names)
  | [], here, _, _, _ => by
    rw [List.append_nil, walk]
  | s :: names, here, n, hup, hnode => by
    obtain ⟨hs, hup⟩ := not_or.mp (mt List.mem_cons.mpr hup)
    have hhere := h.node?_of_append hnode (by simp)
    rw [List.append_cons] at hnode ⊢
    rw [walk_down hhere (Ne.symm hs) (h.unbarred_of_append hnode)]
    exact walk_names h hup hnode

theorem eq_append_of_walk : ∀ {names : List String} {here there : Place}, Path.up ∉ names →
    t.walk here names = .ok there → there = here ++ names
  | [], here, there, _, h => by
    rw [List.append_nil]
    exact (Except.ok.inj h).symm
  | s :: names, here, there, hup, h => by
    obtain ⟨hs, hup⟩ := not_or.mp (mt List.mem_cons.mpr hup)
    obtain ⟨-, ⟨heq, -⟩ | ⟨-, -, h⟩⟩ := walk_cons h
    · exact absurd heq.symm hs
    · rw [List.append_cons]
      exact eq_append_of_walk hup h

theorem locate_below {p : Path} {here : Place} (hp : t.locate cwd p = .ok here)
    (names : List String) : t.locate cwd (p.below names) = t.walk here names := by
  have happend : t.locate cwd (p.below names) =
      (t.locate cwd p).bind fun here => t.walk here names := walk_append t _ p.parts names
  rw [happend, hp]
  rfl

/-- Names below a path lead where they say, if there is anything. -/
theorem Proper.lookup?_below (h : t.Proper) {p : Path} {here : Place}
    (hp : t.locate cwd p = .ok here) {names : List String} (hup : Path.up ∉ names) :
    t.lookup? cwd (p.below names) = t.node? (here ++ names) := by
  rw [lookup?, locate_below hp]
  cases hwalk : t.walk here names with
  | ok there => rw [eq_append_of_walk hup hwalk]
  | error e =>
    cases hnode : t.node? (here ++ names) with
    | none => rfl
    | some n =>
      rw [h.walk_names hup hnode] at hwalk
      cases hwalk

/-! ### Searches in a tree that grows -/

variable {changed : Place → Prop} (h : t.Grows changed t')

theorem mem_namesIn_of_node? {here : Place} {name : String} {n : Node}
    (hnode : t.node? (here ++ [name]) = some n) : name ∈ t.namesIn here := by
  refine List.mem_filterMap.mpr ⟨(here ++ [name], n), mem_inside.mpr ⟨?_, ?_, ?_⟩, ?_⟩
  · exact mem_entries_of_node? (by simp) hnode
  · exact List.prefix_append _ _
  · simp
  · simp

theorem mem_directoriesFrom_of_node? {p : Path} {here : Place} (hp : t.locate cwd p = .ok here)
    {names : List String} (hnames : names ≠ [])
    (hnode : t.node? (here ++ names) = some .directory) :
    p.below names ∈ t.directoriesFrom cwd p := by
  unfold directoriesFrom
  rw [hp]
  refine List.mem_cons_of_mem _ (List.mem_filterMap.mpr ⟨(here ++ names, .directory), ?_, ?_⟩)
  · refine mem_inside.mpr ⟨mem_entries_of_node? (by simp [hnames]) hnode,
      List.prefix_append _ _, ?_⟩
    have hlength := List.length_pos_iff.mpr hnames
    simp only [List.length_append]
    omega
  · simp

theorem self_mem_directoriesFrom (t : Tree) (cwd : Place) (p : Path) :
    p ∈ t.directoriesFrom cwd p := by
  unfold directoriesFrom
  split <;> simp

theorem not_isDirectory_of_isFile {p : Path} (hfile : t.isFile cwd p = true) :
    ¬ t.isDirectory cwd p = true := by
  obtain ⟨c, x, hlookup⟩ := isFile_iff.mp hfile
  rw [isDirectory_iff, hlookup]
  simp

/-- What is passed on the way to a file, by a pattern that does not go up, is a directory with
    the file in it, unless it is the file itself. -/
theorem Proper.passed (hproper : t.Proper) (hproper' : t'.Proper) {rest : List PatternPart}
    (hrest : ∀ part ∈ rest, part.Uses (· ≠ Path.up)) {p q : Path} {here : Place}
    (hp : t.locate cwd p = .ok here) (hfile : t.isFile cwd q = true) {first : List String}
    (hfirst : Path.up ∉ first) (hq : q ∈ t'.select cwd rest (p.below first)) :
    t.locate cwd (p.below first) = .ok (here ++ first) ∧
      (t.node? (here ++ first) = some .directory ∨ q = p.below first) := by
  have hnamed : t'.Named (· ≠ Path.up) := fun e he s hs heq =>
    (hproper'.room e he).noUp (heq ▸ hs)
  obtain ⟨names, rfl, hnames⟩ := select_below hnamed hrest hq
  have hup : Path.up ∉ names := fun hmem => hnames _ hmem rfl
  obtain ⟨c, x, hlookup⟩ := isFile_iff.mp hfile
  rw [Path.below_below, hproper.lookup?_below hp (by simp [hfirst, hup]),
    ← List.append_assoc] at hlookup
  rw [locate_below hp]
  by_cases hnil : names = []
  · subst hnil
    rw [List.append_nil] at hlookup
    exact ⟨hproper.walk_names hfirst hlookup, .inr (Path.below_nil _)⟩
  · have hnode := hproper.node?_of_append hlookup hnil
    exact ⟨hproper.walk_names hfirst hnode, .inl hnode⟩

namespace Grows

include h

theorem exists_node {p : Place} {n : Node} (hp : t.node? p = some n) :
    ∃ n', t'.node? p = some n' := by
  cases n with
  | directory => exact ⟨_, h.directories p hp⟩
  | file c x =>
    obtain ⟨c', x', hp'⟩ := h.files p c x hp
    exact ⟨_, hp'⟩

theorem mayFollow {p : Path} {rest : List PatternPart} (hp : t.mayFollow cwd p rest = true) :
    t'.mayFollow cwd p rest = true := by
  unfold Tree.mayFollow at hp ⊢
  split
  · rename_i hrest
    rw [if_pos hrest] at hp
    obtain ⟨n, hlookup⟩ := Option.isSome_iff_exists.mp hp
    obtain ⟨there, hlocate, hnode⟩ := lookup?_eq_some_iff.mp hlookup
    obtain ⟨n', hnode'⟩ := h.exists_node hnode
    rw [lookup?_eq_some_iff.mpr ⟨there, h.walk hlocate, hnode'⟩]
    rfl
  · rename_i hrest
    rw [if_neg hrest] at hp
    exact h.isDirectory hp

theorem mem_directoriesFrom (hproper : t.Proper) {p d : Path} (hd : d ∈ t.directoriesFrom cwd p) :
    d ∈ t'.directoriesFrom cwd p := by
  rcases Tree.mem_directoriesFrom hd with rfl | ⟨here, names, hlocate, rfl, hmem⟩
  · exact self_mem_directoriesFrom t' cwd d
  · by_cases hnames : names = []
    · rw [hnames, Path.below_nil]
      exact self_mem_directoriesFrom t' cwd p
    · exact mem_directoriesFrom_of_node? (h.walk hlocate) hnames
        (h.directories _ (hproper.node?_of_mem hmem))

/-- Whatever a pattern finds it finds in a tree that has grown. -/
theorem mem_select (hproper : t.Proper) : ∀ {parts : List PatternPart} {p q : Path},
    q ∈ t.select cwd parts p → q ∈ t'.select cwd parts p
  | [], _, _, hq => hq
  | part :: rest, p, q, hq => by
    cases part with
    | anyDepth =>
      rw [select] at hq ⊢
      obtain ⟨d, hd, hq⟩ := List.mem_flatMap.mp hq
      exact List.mem_flatMap.mpr ⟨d, h.mem_directoriesFrom hproper hd, mem_select hproper hq⟩
    | above =>
      rw [select] at hq ⊢
      exact mem_select hproper hq
    | named name =>
      rw [select] at hq ⊢
      split at hq
      · rename_i hfollow
        rw [if_pos (h.mayFollow hfollow)]
        exact mem_select hproper hq
      · cases hq
    | matching glyphs =>
      rw [select] at hq ⊢
      cases hlocate : t.locate cwd p with
      | error e => simp [hlocate] at hq
      | ok here =>
        rw [hlocate] at hq
        have hlocate' : t'.locate cwd p = .ok here := h.walk hlocate
        rw [hlocate']
        obtain ⟨found, hfound, hq⟩ := List.mem_flatMap.mp hq
        obtain ⟨hfound, hfollow⟩ := List.mem_filter.mp hfound
        obtain ⟨name, hname, rfl⟩ := List.mem_map.mp hfound
        obtain ⟨hname, hmatch⟩ := List.mem_filter.mp hname
        obtain ⟨n, hmem⟩ := mem_namesIn hname
        obtain ⟨n', hnode'⟩ := h.exists_node (hproper.node?_of_mem hmem)
        refine List.mem_flatMap.mpr ⟨p.below [name], List.mem_filter.mpr
          ⟨List.mem_map.mpr ⟨name, ?_, rfl⟩, h.mayFollow hfollow⟩, mem_select hproper hq⟩
        exact List.mem_filter.mpr ⟨mem_namesIn_of_node? hnode', hmatch⟩

theorem locate {p : Path} {here : Place} (hp : t.locate cwd p = .ok here) :
    t'.locate cwd p = .ok here :=
  h.walk hp

theorem mayFollow_of_isFile (hproper : t.Proper) (hproper' : t'.Proper) {rest : List PatternPart}
    (hrest : ∀ part ∈ rest, part.Uses (· ≠ Path.up)) {p q : Path} {here : Place}
    (hp : t.locate cwd p = .ok here) (hfile : t.isFile cwd q = true) {first : List String}
    (hfirst : Path.up ∉ first) (hq : q ∈ t'.select cwd rest (p.below first))
    (hfollow : t'.mayFollow cwd (p.below first) rest = true) :
    t.mayFollow cwd (p.below first) rest = true := by
  unfold Tree.mayFollow at hfollow ⊢
  rcases (hproper.passed hproper' hrest hp hfile hfirst hq).2 with hnode | rfl
  · have hlookup : t.lookup? cwd (p.below first) = some .directory := by
      rw [hproper.lookup?_below hp hfirst, hnode]
    simp [isDirectory_iff.mpr hlookup, hlookup]
  · split at hfollow
    · rename_i hnil
      obtain ⟨c, x, hlookup⟩ := isFile_iff.mp hfile
      rw [if_pos hnil, hlookup]
      rfl
    · exact absurd hfollow (not_isDirectory_of_isFile (h.isFile hfile))

/-- A file that is there already is found already, by a pattern that does not go up. By
    induction on the pattern. -/
theorem mem_select_of_isFile (hproper : t.Proper) (hproper' : t'.Proper) :
    ∀ {parts : List PatternPart} {p q : Path} {here : Place},
    (∀ part ∈ parts, part.Uses (· ≠ Path.up)) → t.locate cwd p = .ok here →
    t.isFile cwd q = true → q ∈ t'.select cwd parts p → q ∈ t.select cwd parts p
  | [], _, _, _, _, _, _, hq => hq
  | part :: rest, p, q, here, hparts, hp, hfile, hq => by
    have hrest : ∀ part ∈ rest, part.Uses (· ≠ Path.up) := fun part hpart =>
      hparts part (by simp [hpart])
    cases part with
    | anyDepth =>
      rw [select] at hq ⊢
      obtain ⟨d, hd, hq⟩ := List.mem_flatMap.mp hq
      have hself : q ∈ t'.select cwd rest p →
          q ∈ (t.directoriesFrom cwd p).flatMap (t.select cwd rest) := fun hq =>
        List.mem_flatMap.mpr ⟨p, self_mem_directoriesFrom t cwd p,
          mem_select_of_isFile hproper hproper' hrest hp hfile hq⟩
      rcases Tree.mem_directoriesFrom hd with heq | ⟨here', names, hlocate, rfl, hmem⟩
      · exact hself (heq ▸ hq)
      · by_cases hnames : names = []
        · rw [hnames, Path.below_nil] at hq
          exact hself hq
        · obtain rfl : here = here' := Except.ok.inj ((h.locate hp).symm.trans hlocate)
          have hup : Path.up ∉ names := fun hup =>
            (hproper'.room _ hmem).noUp (List.mem_append_right _ hup)
          obtain ⟨hd, hnode | rfl⟩ := hproper.passed hproper' hrest hp hfile hup hq
          · exact List.mem_flatMap.mpr ⟨_, mem_directoriesFrom_of_node? hp hnames hnode,
              mem_select_of_isFile hproper hproper' hrest hd hfile hq⟩
          · refine absurd ?_ (not_isDirectory_of_isFile (h.isFile hfile))
            rw [isDirectory_iff, hproper'.lookup?_below hlocate hup, hproper'.node?_of_mem hmem]
    | above => exact absurd rfl (hparts .above (by simp))
    | named name =>
      have hne : name ≠ Path.up := hparts (.named name) (by simp)
      have hup : Path.up ∉ [name] := by simpa using hne.symm
      rw [select] at hq ⊢
      split at hq
      · rename_i hfollow
        rw [if_pos (h.mayFollow_of_isFile hproper hproper' hrest hp hfile hup hq hfollow)]
        exact mem_select_of_isFile hproper hproper' hrest
          (hproper.passed hproper' hrest hp hfile hup hq).1 hfile hq
      · cases hq
    | matching glyphs =>
      rw [select] at hq ⊢
      rw [h.locate hp] at hq
      rw [hp]
      obtain ⟨found, hfound, hq⟩ := List.mem_flatMap.mp hq
      obtain ⟨hfound, hfollow⟩ := List.mem_filter.mp hfound
      obtain ⟨name, hname, rfl⟩ := List.mem_map.mp hfound
      obtain ⟨hname, hmatch⟩ := List.mem_filter.mp hname
      obtain ⟨n, hmem⟩ := mem_namesIn hname
      have hup : Path.up ∉ [name] := by
        have hnot := (hproper'.room _ hmem).noUp
        rw [List.mem_append, not_or] at hnot
        exact hnot.2
      obtain ⟨hlocate, hpassed⟩ := hproper.passed hproper' hrest hp hfile hup hq
      have hnode : ∃ n, t.node? (here ++ [name]) = some n := by
        rcases hpassed with hnode | rfl
        · exact ⟨_, hnode⟩
        · obtain ⟨c, x, hlookup⟩ := isFile_iff.mp hfile
          rw [hproper.lookup?_below hp hup] at hlookup
          exact ⟨_, hlookup⟩
      obtain ⟨n, hnode⟩ := hnode
      refine List.mem_flatMap.mpr ⟨p.below [name], List.mem_filter.mpr
        ⟨List.mem_map.mpr ⟨name, ?_, rfl⟩, ?_⟩, ?_⟩
      · exact List.mem_filter.mpr ⟨mem_namesIn_of_node? hnode, hmatch⟩
      · exact h.mayFollow_of_isFile hproper hproper' hrest hp hfile hup hq hfollow
      · exact mem_select_of_isFile hproper hproper' hrest hlocate hfile hq

/-- **Searches find the same files** in a tree that has grown, but for those where contents
    may have changed, as long as the pattern does not go up. -/
theorem mem_filesBelow_iff (hproper : t.Proper) (hproper' : t'.Proper)
    (hcwd : t.node? cwd = some .directory) {pattern : SearchPattern}
    (hpattern : ∀ part ∈ pattern.parts, part.Uses (· ≠ Path.up)) {p q : Path}
    (hp : t.isDirectory cwd p = true) (hq : ¬ changed (q.place cwd)) :
    q ∈ t'.filesBelow cwd p pattern ↔ q ∈ t.filesBelow cwd p pattern := by
  rw [mem_filesBelow, mem_filesBelow]
  constructor
  · rintro ⟨hfiles, -, hselect, hfile⟩
    have hparts : ∀ part ∈ .anyDepth :: pattern.parts, part.Uses (· ≠ Path.up) :=
      List.forall_mem_cons.mpr ⟨trivial, hpattern⟩
    have hnamed : t'.Named (· ≠ Path.up) := fun e he s hs heq =>
    (hproper'.room e he).noUp (heq ▸ hs)
    obtain ⟨here, hlocate, -⟩ := isDirectory_iff_node?.mp hp
    obtain ⟨names, rfl, hnames⟩ := select_below hnamed hparts hselect
    have hup : Path.up ∉ names := fun hmem => hnames _ hmem rfl
    obtain ⟨c, x, hlookup⟩ := isFile_iff.mp hfile
    rw [hproper'.lookup?_below (h.locate hlocate) hup] at hlookup
    have hthere : t'.locate cwd (p.below names) = .ok (here ++ names) := by
      rw [locate_below (h.locate hlocate), hproper'.walk_names hup hlookup]
    have hcwd' : t'.node? cwd = some .directory := h.directories cwd hcwd
    rw [← locate_eq_place (hproper'.up_not_mem hcwd') hthere] at hq
    have hfile : t.isFile cwd (p.below names) = true := by
      refine isFile_iff.mpr ⟨c, x, ?_⟩
      rw [hproper.lookup?_below hlocate hup]
      exact (h.unchanged _ hq c x).mpr hlookup
    exact ⟨hfiles, hp, h.mem_select_of_isFile hproper hproper' hparts hlocate hfile hselect, hfile⟩
  · rintro ⟨hfiles, -, hselect, hfile⟩
    exact ⟨hfiles, h.isDirectory hp, h.mem_select hproper hselect, h.isFile hfile⟩

end Grows

theorem nodup_eraseDups {α : Type} [DecidableEq α] : ∀ xs : List α, xs.eraseDups.Nodup
  | [] => by simp
  | x :: xs => by
    rw [List.eraseDups_cons, List.nodup_cons, List.mem_eraseDups]
    exact ⟨by simp, nodup_eraseDups _⟩
termination_by xs => xs.length
decreasing_by
  have hlength := List.length_filter_le (fun b => !b == x) xs
  simp only [List.length_cons]
  omega

theorem nodup_filesBelow (t : Tree) (cwd : Place) (p : Path) (pattern : SearchPattern) :
    (t.filesBelow cwd p pattern).Nodup := by
  unfold filesBelow
  split
  · exact List.nodup_nil
  · exact (nodup_eraseDups _).filter _

end Tree

end ILDump
