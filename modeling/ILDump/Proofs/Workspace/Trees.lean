import ILDump.Workspace.Tree
import ILDump.Proofs.Workspace.Paths
import Mathlib.Data.List.Nodup

/-!
# Trees of files

In a proper tree every place has one entry, under ordinary names and inside a directory, and
nobody is kept from it, so what the entries say and what is found by walking are the same.
Walking does not depend on what else is in the tree: where a path leads is told by its text.
`Grows` says what a run leaves of a tree: directories and files stay what they are, and only at
certain places may contents change or new files appear.
-/

namespace ILDump

/-- The place a path leads to by its text alone. -/
def Path.place (cwd : Place) (p : Path) : Place :=
  (p.absolute ⟨.root, cwd⟩).parts

namespace Tree

variable {t t' : Tree}

/-! ### Entries -/

theorem node?_nil (t : Tree) : t.node? [] = some .directory := rfl

theorem node?_of_ne_nil {p : Place} (hp : p ≠ []) :
    t.node? p = (t.entries.find? fun e => e.1 = p).map (·.2) := by
  rw [node?, if_neg (by simpa using hp)]

theorem mem_entries_of_node? {p : Place} {n : Node} (hp : p ≠ []) (h : t.node? p = some n) :
    (p, n) ∈ t.entries := by
  rw [node?_of_ne_nil hp, Option.map_eq_some_iff] at h
  obtain ⟨e, he, rfl⟩ := h
  obtain rfl : e.1 = p := by simpa using List.find?_some he
  exact List.mem_of_find?_eq_some he

/-- By induction on the entries: replacing an entry does not move others. -/
theorem find?_map_replace {p q : Place} {n : Node} : ∀ entries : List (Place × Node),
    ((entries.map fun e => if e.1 = p then (p, n) else e).find? fun e => e.1 = q).map (·.2) =
      if q = p then if entries.any fun e => e.1 = p then some n else none
      else (entries.find? fun e => e.1 = q).map (·.2)
  | [] => by simp
  | e :: entries => by
    have htail := find?_map_replace (p := p) (q := q) (n := n) entries
    rw [List.map_cons, List.find?_cons, List.find?_cons, List.any_cons]
    by_cases he : e.1 = p
    · by_cases hq : q = p
      · simp [he, hq]
      · have hpq : p ≠ q := fun h => hq h.symm
        simp only [hq, if_false] at htail ⊢
        simp only [he, if_true, hpq, decide_false]
        exact htail
    · by_cases hq : q = p
      · subst hq
        simp only [if_true] at htail ⊢
        simp only [he, if_false, decide_false, Bool.false_or]
        exact htail
      · simp only [hq, if_false] at htail ⊢
        by_cases heq : e.1 = q
        · simp [heq, hq]
        · simp only [he, heq, if_false, decide_false]
          exact htail

theorem ne_of_not_any {p : Place} {entries : List (Place × Node)}
    (h : ¬ (entries.any fun e => e.1 = p) = true) : ∀ e ∈ entries, e.1 ≠ p := by
  intro e he heq
  exact h (List.any_eq_true.mpr ⟨e, he, decide_eq_true heq⟩)

theorem node?_put {p : Place} (hp : p ≠ []) (n : Node) (q : Place) :
    (t.put p n).node? q = if q = p then some n else t.node? q := by
  by_cases hq : q = []
  · subst hq
    rw [node?_nil, node?_nil, if_neg (Ne.symm hp)]
  · rw [node?_of_ne_nil hq, node?_of_ne_nil hq]
    unfold put
    split
    · rename_i hany
      rw [find?_map_replace, if_pos hany]
    · rename_i hany
      have hnone := ne_of_not_any hany
      rw [List.find?_append, Option.map_or]
      by_cases hqp : q = p
      · have hfind : t.entries.find? (fun e => e.1 = p) = none := by
          rw [List.find?_eq_none]
          exact fun e he => by simpa using hnone e he
        simp only [hqp, hfind]
        simp
      · have hpq : p ≠ q := fun h => hqp h.symm
        simp [hqp, hpq]

theorem barrier?_put (t : Tree) (p : Place) (n : Node) : (t.put p n).barrier? = t.barrier? := by
  unfold put
  split <;> rfl

/-! ### Proper trees -/

/-- There may be something at a place: inside a directory, under a name that is not `..`. -/
structure HasRoom (t : Tree) (p : Place) : Prop where
  nonempty : p ≠ []
  noUp : Path.up ∉ p
  inside : t.node? p.dropLast = some .directory
  unbarred : t.barrier? p = none

instance (t : Tree) (p : Place) : Decidable (t.HasRoom p) :=
  decidable_of_iff (p ≠ [] ∧ Path.up ∉ p ∧ t.node? p.dropLast = some .directory ∧
      t.barrier? p = none)
    ⟨fun h => ⟨h.1, h.2.1, h.2.2.1, h.2.2.2⟩,
      fun h => ⟨h.nonempty, h.noUp, h.inside, h.unbarred⟩⟩

/-- Every place has one entry, and each entry is where something may be. -/
structure Proper (t : Tree) : Prop where
  once : (t.entries.map (·.1)).Nodup
  room : ∀ e ∈ t.entries, t.HasRoom e.1

instance (t : Tree) : Decidable t.Proper :=
  decidable_of_iff ((t.entries.map (·.1)).Nodup ∧ ∀ e ∈ t.entries, t.HasRoom e.1)
    ⟨fun h => ⟨h.1, h.2⟩, fun h => ⟨h.once, h.room⟩⟩

namespace Proper

variable (h : t.Proper)
include h

theorem node?_of_mem {e : Place × Node} (he : e ∈ t.entries) : t.node? e.1 = some e.2 := by
  rw [node?_of_ne_nil (h.room e he).nonempty]
  cases hfind : t.entries.find? fun e' => e'.1 = e.1 with
  | none => exact absurd (List.find?_eq_none.mp hfind e he) (by simp)
  | some e' =>
    have hmem := List.mem_of_find?_eq_some hfind
    have hkey : e'.1 = e.1 := by simpa using List.find?_some hfind
    rw [List.inj_on_of_nodup_map h.once hmem he hkey]
    rfl

theorem up_not_mem {p : Place} {n : Node} (hp : t.node? p = some n) : Path.up ∉ p := by
  by_cases hnil : p = []
  · simp [hnil]
  · exact (h.room _ (mem_entries_of_node? hnil hp)).noUp

theorem node?_dropLast {p : Place} {n : Node} (hp : t.node? p = some n) :
    t.node? p.dropLast = some .directory := by
  by_cases hnil : p = []
  · simp [hnil, node?_nil]
  · exact (h.room _ (mem_entries_of_node? hnil hp)).inside

/-- Something may be put where there is room for it, unless a file is to replace a directory. -/
theorem put {p : Place} {n : Node} (hroom : t.HasRoom p)
    (hkeep : t.node? p = some .directory → n = .directory) : (t.put p n).Proper := by
  have hmem : ∀ e ∈ (t.put p n).entries, e = (p, n) ∨ e ∈ t.entries := by
    unfold Tree.put
    split
    · intro e he
      obtain ⟨e', he', rfl⟩ := List.mem_map.mp he
      split
      · exact .inl rfl
      · exact .inr he'
    · intro e he
      rcases List.mem_append.mp he with he | he
      · exact .inr he
      · exact .inl (List.mem_singleton.mp he)
  have hdirectory {q : Place} (hq : t.node? q = some .directory) :
      (t.put p n).node? q = some .directory := by
    rw [node?_put hroom.nonempty]
    split
    · rename_i heq
      rw [hkeep (heq ▸ hq)]
    · exact hq
  have hstays {q : Place} (hq : t.HasRoom q) : (t.put p n).HasRoom q :=
    ⟨hq.nonempty, hq.noUp, hdirectory hq.inside, barrier?_put t p n ▸ hq.unbarred⟩
  refine ⟨?_, ?_⟩
  · unfold Tree.put
    split
    · have hsame : (t.entries.map fun e => if e.1 = p then (p, n) else e).map (·.1) =
          t.entries.map (·.1) := by
        rw [List.map_map]
        refine List.map_congr_left fun e _ => ?_
        simp only [Function.comp_apply]
        split
        · rename_i heq
          exact heq.symm
        · rfl
      rw [hsame]
      exact h.once
    · rename_i hany
      have hnew := ne_of_not_any hany
      rw [List.map_append, List.nodup_append]
      refine ⟨h.once, by simp, ?_⟩
      intro q hq q' hq'
      obtain ⟨e, he, rfl⟩ := List.mem_map.mp hq
      obtain rfl : q' = p := by simpa using hq'
      exact hnew e he
  · intro e he
    rcases hmem e he with rfl | he
    · exact hstays hroom
    · exact hstays (h.room e he)

end Proper

/-! ### Walking -/

theorem walk_up {here : Place} (hhere : t.node? here = some .directory) (rest : List String) :
    t.walk here (Path.up :: rest) = t.walk here.dropLast rest := by
  rw [walk, hhere]
  exact if_pos rfl

theorem walk_down {here : Place} (hhere : t.node? here = some .directory) {part : String}
    (hpart : part ≠ Path.up) (hopen : t.barrier? (here ++ [part]) = none) (rest : List String) :
    t.walk here (part :: rest) = t.walk (here ++ [part]) rest := by
  rw [walk, hhere]
  simp only [if_neg hpart, hopen]

/-- The first step of a walk. -/
theorem walk_cons {here there : Place} {part : String} {rest : List String}
    (h : t.walk here (part :: rest) = .ok there) :
    t.node? here = some .directory ∧
      (part = Path.up ∧ t.walk here.dropLast rest = .ok there ∨
        part ≠ Path.up ∧ t.barrier? (here ++ [part]) = none ∧
          t.walk (here ++ [part]) rest = .ok there) := by
  rw [walk] at h
  split at h
  · cases h
  · cases h
  · rename_i hhere
    refine ⟨hhere, ?_⟩
    split at h
    · rename_i hpart
      exact .inl ⟨hpart, h⟩
    · rename_i hpart
      split at h
      · cases h
      · rename_i hopen
        exact .inr ⟨hpart, hopen, h⟩

theorem walk_append (t : Tree) : ∀ (here : Place) (xs ys : List String),
    t.walk here (xs ++ ys) = (t.walk here xs).bind fun there => t.walk there ys
  | _, [], _ => rfl
  | here, x :: xs, ys => by
    rw [List.cons_append, walk, walk]
    cases t.node? here with
    | none => rfl
    | some n =>
      cases n with
      | file c x => rfl
      | directory =>
        dsimp only
        split
        · exact walk_append t _ xs ys
        · split
          · rfl
          · exact walk_append t _ xs ys

/-- The last step of a walk. -/
theorem walk_concat {here there : Place} {xs : List String} {s : String}
    (h : t.walk here (xs ++ [s]) = .ok there) :
    ∃ before, t.walk here xs = .ok before ∧ t.node? before = some .directory ∧
      (s = Path.up ∧ there = before.dropLast ∨
        s ≠ Path.up ∧ t.barrier? (before ++ [s]) = none ∧ there = before ++ [s]) := by
  rw [walk_append] at h
  cases hbefore : t.walk here xs with
  | error e =>
    rw [hbefore] at h
    cases h
  | ok before =>
    rw [hbefore] at h
    obtain ⟨hdirectory, ⟨hs, hlast⟩ | ⟨hs, hopen, hlast⟩⟩ := walk_cons h
    · exact ⟨before, rfl, hdirectory, .inl ⟨hs, (Except.ok.inj hlast).symm⟩⟩
    · exact ⟨before, rfl, hdirectory, .inr ⟨hs, hopen, (Except.ok.inj hlast).symm⟩⟩

/-- A walk leads where the text alone leads. -/
theorem eq_of_walk : ∀ {parts : List String} {here there : Place}, Path.up ∉ here →
    t.walk here parts = .ok there →
    there = (parts.foldl (Path.resolveStep true) here.reverse).reverse
  | [], here, there, _, h => by
    rw [List.foldl_nil, List.reverse_reverse]
    exact (Except.ok.inj h).symm
  | part :: parts, here, there, hhere, h => by
    obtain ⟨-, ⟨rfl, hrest⟩ | ⟨hpart, -, hrest⟩⟩ := walk_cons h
    · have hdrop : Path.up ∉ here.dropLast := fun hmem => hhere (List.dropLast_subset _ hmem)
      rw [eq_of_walk hdrop hrest, List.foldl_cons]
      congr 2
      induction here using List.reverseRecOn with
      | nil => rfl
      | append_singleton here last _ =>
        have hlast : last ≠ Path.up := fun heq => hhere (by simp [heq])
        simp [Path.resolveStep, hlast]
    · have hmore : Path.up ∉ here ++ [part] := by
        rw [List.mem_append, List.mem_singleton]
        exact fun hmem => hmem.elim hhere fun heq => hpart heq.symm
      rw [eq_of_walk hmore hrest, List.foldl_cons]
      simp [Path.resolveStep, hpart]

theorem locate_eq_place {cwd there : Place} {p : Path} (hcwd : Path.up ∉ cwd)
    (h : t.locate cwd p = .ok there) : there = p.place cwd := by
  have hstart : Path.up ∉ if p.isAbsolute then [] else cwd := by
    split
    · simp
    · exact hcwd
  have hreverse : (if p.isAbsolute then [] else cwd).foldl (Path.resolveStep true) [] =
      (if p.isAbsolute then [] else cwd).reverse := by
    have hresolve : Path.resolveParts true (if p.isAbsolute then [] else cwd) = _ :=
      Path.resolveParts_of_not_mem hstart
    rw [Path.resolveParts] at hresolve
    rw [← List.reverse_reverse (List.foldl _ _ _), hresolve]
  have hroot : ((⟨.root, cwd⟩ : Path).join p).isAbsolute = true := Path.isAbsolute_join rfl
  rw [eq_of_walk hstart h, Path.place, Path.absolute, Path.normalize, hroot, Path.parts_join,
    Path.resolveParts, List.foldl_append, hreverse]

/-! ### Looking -/

theorem lookup?_eq_some_iff {cwd : Place} {p : Path} {n : Node} :
    t.lookup? cwd p = some n ↔ ∃ there, t.locate cwd p = .ok there ∧ t.node? there = some n := by
  unfold lookup?
  cases t.locate cwd p with
  | error e => simp
  | ok there => simp

/-- What can be found can be looked at. -/
theorem refusal?_of_lookup? {cwd : Place} {p : Path} {n : Node} (h : t.lookup? cwd p = some n) :
    t.refusal? cwd p = none := by
  obtain ⟨there, hlocate, -⟩ := lookup?_eq_some_iff.mp h
  rw [refusal?, hlocate]

theorem read_of_refusal? {cwd : Place} {p : Path} {e : DiskError} (h : t.refusal? cwd p = some e) :
    t.read cwd p = .error e := by
  unfold refusal? at h
  unfold read
  cases hlocate : t.locate cwd p with
  | ok there => simp [hlocate] at h
  | error e' =>
    rw [hlocate] at h
    by_cases habsence : e'.isAbsence = true
    · simp [habsence] at h
    · simp only [habsence, Bool.false_eq_true, if_false, Option.some.injEq] at h
      rw [h]
      rfl

theorem isFile_iff {cwd : Place} {p : Path} :
    t.isFile cwd p = true ↔ ∃ c x, t.lookup? cwd p = some (.file c x) := by
  unfold isFile
  split <;> simp_all

theorem isDirectory_iff {cwd : Place} {p : Path} :
    t.isDirectory cwd p = true ↔ t.lookup? cwd p = some .directory := by
  simp [isDirectory]

theorem read_eq_ok_iff {cwd : Place} {p : Path} {c : Bytes} :
    t.read cwd p = .ok c ↔ ∃ x, t.lookup? cwd p = some (.file c x) := by
  unfold read lookup?
  cases t.locate cwd p with
  | error e => simp [bind, Except.bind]
  | ok there =>
    simp only [bind, Except.bind]
    split <;> simp_all

/-- The path of a file ends in a name. -/
theorem Proper.exists_name (h : t.Proper) {cwd : Place} (hcwd : t.node? cwd = some .directory)
    {p : Path} (hfile : t.isFile cwd p = true) :
    ∃ parts s, p.parts = parts ++ [s] ∧ s ≠ Path.up := by
  obtain ⟨c, x, hlookup⟩ := isFile_iff.mp hfile
  obtain ⟨there, hlocate, hnode⟩ := lookup?_eq_some_iff.mp hlookup
  have hstart : t.node? (if p.isAbsolute then [] else cwd) = some .directory := by
    split
    · rfl
    · exact hcwd
  rcases List.eq_nil_or_concat p.parts with hnil | ⟨parts, s, hparts⟩
  · rw [locate, hnil, walk] at hlocate
    rw [← Except.ok.inj hlocate, hstart] at hnode
    cases hnode
  · rw [List.concat_eq_append] at hparts
    refine ⟨parts, s, hparts, ?_⟩
    rintro rfl
    rw [locate, hparts] at hlocate
    obtain ⟨before, -, hbefore, ⟨-, rfl⟩ | ⟨hup, -⟩⟩ := walk_concat hlocate
    · rw [h.node?_dropLast hbefore] at hnode
      cases hnode
    · exact hup rfl

/-! ### Growing -/

/-- Directories and files stay what they are, and outside certain places there are the same
    files with the same contents. Nobody is kept from other places than before. -/
structure Grows (changed : Place → Prop) (t t' : Tree) : Prop where
  barriers : t'.barrier? = t.barrier?
  directories : ∀ p, t.node? p = some .directory → t'.node? p = some .directory
  files : ∀ p c x, t.node? p = some (.file c x) → ∃ c' x', t'.node? p = some (.file c' x')
  unchanged : ∀ p, ¬ changed p → ∀ c x,
    t.node? p = some (.file c x) ↔ t'.node? p = some (.file c x)

namespace Grows

variable {changed changed' : Place → Prop} {t'' : Tree}

theorem refl (t : Tree) : Grows changed t t :=
  ⟨rfl, fun _ h => h, fun _ c x h => ⟨c, x, h⟩, fun _ _ _ _ => Iff.rfl⟩

theorem trans (h : Grows changed t t') (h' : Grows changed t' t'') : Grows changed t t'' where
  barriers := h'.barriers.trans h.barriers
  directories p hp := h'.directories p (h.directories p hp)
  files p c x hp := by
    obtain ⟨c', x', hp'⟩ := h.files p c x hp
    exact h'.files p c' x' hp'
  unchanged p hp c x := (h.unchanged p hp c x).trans (h'.unchanged p hp c x)

theorem mono (h : Grows changed t t') (hc : ∀ p, changed p → changed' p) : Grows changed' t t' where
  barriers := h.barriers
  directories := h.directories
  files := h.files
  unchanged p hp := h.unchanged p fun hchanged => hp (hc p hchanged)

theorem put_file {p : Place} (hnil : p ≠ []) (hp : t.node? p ≠ some .directory) (c : Bytes)
    (x : Bool) : Grows (· = p) t (t.put p (.file c x)) where
  barriers := barrier?_put t p _
  directories q hq := by
    rw [node?_put hnil, if_neg (by rintro rfl; exact hp hq)]
    exact hq
  files q c' x' hq := by
    rw [node?_put hnil]
    split
    · exact ⟨c, x, rfl⟩
    · exact ⟨c', x', hq⟩
  unchanged q hq c' x' := by
    rw [node?_put hnil, if_neg hq]

theorem put_directory {p : Place} (hnil : p ≠ []) (hp : t.node? p = none) :
    Grows changed t (t.put p .directory) where
  barriers := barrier?_put t p _
  directories q hq := by
    rw [node?_put hnil]
    split
    · rfl
    · exact hq
  files q c x hq := by
    refine ⟨c, x, ?_⟩
    rw [node?_put hnil, if_neg (by rintro rfl; simp [hp] at hq)]
    exact hq
  unchanged q _ c x := by
    rw [node?_put hnil]
    split
    · rename_i heq
      simp [heq, hp]
    · rfl

/-- Walks stand on directories, so they lead where they led. -/
theorem walk (h : Grows changed t t') : ∀ {parts : List String} {here there : Place},
    t.walk here parts = .ok there → t'.walk here parts = .ok there
  | [], _, _, hw => hw
  | part :: parts, here, there, hw => by
    obtain ⟨hnode, ⟨rfl, hrest⟩ | ⟨hpart, hopen, hrest⟩⟩ := walk_cons hw
    · rw [walk_up (h.directories here hnode)]
      exact walk h hrest
    · rw [walk_down (h.directories here hnode) hpart (h.barriers ▸ hopen)]
      exact walk h hrest

theorem isDirectory (h : Grows changed t t') {cwd : Place} {p : Path}
    (hp : t.isDirectory cwd p = true) : t'.isDirectory cwd p = true := by
  rw [isDirectory_iff, lookup?_eq_some_iff] at *
  obtain ⟨there, hlocate, hnode⟩ := hp
  exact ⟨there, h.walk hlocate, h.directories there hnode⟩

theorem isFile (h : Grows changed t t') {cwd : Place} {p : Path} (hp : t.isFile cwd p = true) :
    t'.isFile cwd p = true := by
  obtain ⟨c, x, hlookup⟩ := isFile_iff.mp hp
  obtain ⟨there, hlocate, hnode⟩ := lookup?_eq_some_iff.mp hlookup
  obtain ⟨c', x', hnode'⟩ := h.files there c x hnode
  exact isFile_iff.mpr ⟨c', x', lookup?_eq_some_iff.mpr ⟨there, h.walk hlocate, hnode'⟩⟩

/-- A file that is not at a place where contents may change is found as it was. -/
theorem lookup?_file (h : Grows changed t t') (hproper : t.Proper) {cwd : Place}
    (hcwd : t.node? cwd = some .directory) {p : Path} (hp : ¬ changed (p.place cwd)) {c : Bytes}
    {x : Bool} (hlookup : t.lookup? cwd p = some (.file c x)) :
    t'.lookup? cwd p = some (.file c x) := by
  obtain ⟨there, hlocate, hnode⟩ := lookup?_eq_some_iff.mp hlookup
  rw [← locate_eq_place (hproper.up_not_mem hcwd) hlocate] at hp
  exact lookup?_eq_some_iff.mpr ⟨there, h.walk hlocate, (h.unchanged there hp c x).mp hnode⟩

theorem read (h : Grows changed t t') (hproper : t.Proper) {cwd : Place}
    (hcwd : t.node? cwd = some .directory) {p : Path} (hp : ¬ changed (p.place cwd)) {c : Bytes}
    (hread : t.read cwd p = .ok c) : t'.read cwd p = .ok c := by
  obtain ⟨x, hlookup⟩ := read_eq_ok_iff.mp hread
  exact read_eq_ok_iff.mpr ⟨x, h.lookup?_file hproper hcwd hp hlookup⟩

end Grows

/-! ### Creating directories -/

theorem isDirectory_iff_node? {cwd : Place} {p : Path} :
    t.isDirectory cwd p = true ↔
      ∃ there, t.locate cwd p = .ok there ∧ t.node? there = some .directory := by
  rw [isDirectory_iff, lookup?_eq_some_iff]

/-- A walk that does not lead to a directory leads to where something may be. -/
theorem Proper.hasRoom (h : t.Proper) {cwd there : Place} {p : Path}
    (hcwd : t.node? cwd = some .directory) (hlocate : t.locate cwd p = .ok there)
    (hnode : t.node? there ≠ some .directory) : t.HasRoom there := by
  have hstart : t.node? (if p.isAbsolute then [] else cwd) = some .directory := by
    split
    · rfl
    · exact hcwd
  rcases List.eq_nil_or_concat p.parts with hnil | ⟨parts, s, hparts⟩
  · rw [locate, hnil, Tree.walk] at hlocate
    rw [← Except.ok.inj hlocate] at hnode
    exact absurd hstart hnode
  · rw [List.concat_eq_append] at hparts
    rw [locate, hparts] at hlocate
    obtain ⟨before, -, hbefore, ⟨-, rfl⟩ | ⟨hs, hopen, rfl⟩⟩ := walk_concat hlocate
    · exact absurd (h.node?_dropLast hbefore) hnode
    · refine ⟨by simp, ?_, by rw [List.dropLast_concat]; exact hbefore, hopen⟩
      rw [List.mem_append, List.mem_singleton]
      exact fun hmem => hmem.elim (h.up_not_mem hbefore) fun heq => hs heq.symm

/-- What creating one directory does. -/
theorem makeDirectory_eq_ok {cwd : Place} {p : Path} (h : t.makeDirectory cwd p = .ok t') :
    ∃ there, t.locate cwd p = .ok there ∧ t.node? there = none ∧ t' = t.put there .directory := by
  unfold makeDirectory at h
  cases hlocate : t.locate cwd p with
  | error e =>
    rw [hlocate] at h
    cases h
  | ok there =>
    rw [hlocate] at h
    simp only [bind, Except.bind] at h
    split at h
    · cases h
    · rename_i hnode
      exact ⟨there, rfl, hnode, (Except.ok.inj h).symm⟩

/-- What becomes of a tree in which directories are created: it stays proper and grows. -/
structure Extended (cwd : Place) (t t' : Tree) : Prop where
  proper : t'.Proper
  here : t'.node? cwd = some .directory
  grows : Grows (fun _ => False) t t'

theorem makeDirectory_extended (h : t.Proper) {cwd : Place} {p : Path}
    (hcwd : t.node? cwd = some .directory) (hmake : t.makeDirectory cwd p = .ok t') :
    Extended cwd t t' ∧ t'.isDirectory cwd p = true := by
  obtain ⟨there, hlocate, hnode, rfl⟩ := makeDirectory_eq_ok hmake
  have hroom := h.hasRoom hcwd hlocate (by simp [hnode])
  have hgrows : Grows (fun _ => False) t (t.put there .directory) :=
    .put_directory hroom.nonempty hnode
  refine ⟨⟨h.put hroom fun _ => rfl, hgrows.directories cwd hcwd, hgrows⟩, ?_⟩
  refine isDirectory_iff_node?.mpr ⟨there, hgrows.walk hlocate, ?_⟩
  rw [node?_put hroom.nonempty, if_pos rfl]

/-- Directories are created one below the other. By induction on how many may be missing. -/
theorem makeDirectories_extended {cwd : Place} : ∀ {depth : Nat} {p : Path} {t : Tree},
    t.Proper → t.node? cwd = some .directory →
    Extended cwd t (makeDirectories cwd depth p t).1 ∧
      ((makeDirectories cwd depth p t).2 = none →
        (makeDirectories cwd depth p t).1.isDirectory cwd p = true) := by
  intro depth
  induction depth with
  | zero =>
    intro p t h hcwd
    unfold makeDirectories
    split
    · rename_i hmake
      obtain ⟨hextended, hdirectory⟩ := makeDirectory_extended h hcwd hmake
      exact ⟨hextended, fun _ => hdirectory⟩
    · contradiction
    · refine ⟨⟨h, hcwd, .refl t⟩, fun hnone => ?_⟩
      by_contra hnot
      simp [hnot] at hnone
  | succ depth ih =>
    intro p t h hcwd
    unfold makeDirectories
    split
    · rename_i hmake
      obtain ⟨hextended, hdirectory⟩ := makeDirectory_extended h hcwd hmake
      exact ⟨hextended, fun _ => hdirectory⟩
    · rename_i hmake hdepth
      cases hdepth
      obtain ⟨hextended, -⟩ := ih h hcwd
      split
      · rename_i t₁ e heq
        rw [heq] at hextended
        exact ⟨hextended, fun hnone => by simp at hnone⟩
      · rename_i t₁ heq
        rw [heq] at hextended
        obtain ⟨hproper, hhere, hgrows⟩ := hextended
        split
        · rename_i t₂ hmake
          obtain ⟨⟨hproper', hhere', hgrows'⟩, hdirectory⟩ :=
            makeDirectory_extended hproper hhere hmake
          exact ⟨⟨hproper', hhere', hgrows.trans hgrows'⟩, fun _ => hdirectory⟩
        · refine ⟨⟨hproper, hhere, hgrows⟩, fun hnone => ?_⟩
          by_contra hnot
          simp [hnot] at hnone
    · refine ⟨⟨h, hcwd, .refl t⟩, fun hnone => ?_⟩
      by_contra hnot
      simp [hnot] at hnone

/-- Nothing is created where there is a directory already. -/
theorem makeDirectories_of_isDirectory {cwd : Place} {depth : Nat} {p : Path}
    (h : t.isDirectory cwd p = true) : makeDirectories cwd depth p t = (t, none) := by
  obtain ⟨there, hlocate, hnode⟩ := isDirectory_iff_node?.mp h
  have hmake : t.makeDirectory cwd p = .error .exists := by
    simp [makeDirectory, hlocate, hnode, bind, Except.bind]
  unfold makeDirectories
  rw [hmake]
  simp [h]

/-! ### Names in a tree -/

/-- All names in a tree are good ones. -/
def Named (good : String → Prop) (t : Tree) : Prop :=
  ∀ e ∈ t.entries, ∀ s ∈ e.1, good s

instance (good : String → Prop) [DecidablePred good] (t : Tree) : Decidable (t.Named good) :=
  inferInstanceAs (Decidable (∀ e ∈ t.entries, ∀ s ∈ e.1, good s))

namespace Named

variable {good : String → Prop}

theorem put {p : Place} {n : Node} (h : t.Named good) (hp : ∀ s ∈ p, good s) :
    (t.put p n).Named good := by
  unfold Tree.put
  split
  · intro e he
    obtain ⟨e', he', rfl⟩ := List.mem_map.mp he
    split
    · exact hp
    · exact h e' he'
  · intro e he
    rcases List.mem_append.mp he with he | he
    · exact h e he
    · rw [List.mem_singleton.mp he]
      exact hp

theorem of_node? {p : Place} {n : Node} (h : t.Named good) (hp : t.node? p = some n) :
    ∀ s ∈ p, good s := by
  by_cases hnil : p = []
  · simp [hnil]
  · exact h _ (mem_entries_of_node? hnil hp)

theorem of_walk : ∀ {parts : List String} {here there : Place}, (∀ s ∈ here, good s) →
    (∀ s ∈ parts, good s) → t.walk here parts = .ok there → ∀ s ∈ there, good s
  | [], _, _, hhere, _, h => by
    rw [walk] at h
    exact Except.ok.inj h ▸ hhere
  | part :: parts, here, there, hhere, hparts, h => by
    have hrest : ∀ s ∈ parts, good s := fun s hs => hparts s (by simp [hs])
    obtain ⟨-, ⟨-, h⟩ | ⟨-, -, h⟩⟩ := walk_cons h
    · exact of_walk (fun s hs => hhere s (List.dropLast_subset _ hs)) hrest h
    · refine of_walk (fun s hs => ?_) hrest h
      rcases List.mem_append.mp hs with hs | hs
      · exact hhere s hs
      · exact List.mem_singleton.mp hs ▸ hparts part (by simp)

theorem makeDirectory {cwd : Place} {p : Path} (h : t.Named good) (hcwd : ∀ s ∈ cwd, good s)
    (hp : ∀ s ∈ p.parts, good s) (hmake : t.makeDirectory cwd p = .ok t') : t'.Named good := by
  obtain ⟨there, hlocate, -, rfl⟩ := makeDirectory_eq_ok hmake
  refine h.put (of_walk ?_ hp hlocate)
  split
  · simp
  · exact hcwd

/-- Creating directories adds no names but those of the path. By induction on how many may be
    missing. -/
theorem makeDirectories {cwd : Place} (hcwd : ∀ s ∈ cwd, good s) : ∀ {depth : Nat} {p : Path}
    {t : Tree}, t.Named good → (∀ s ∈ p.parts, good s) →
    (Tree.makeDirectories cwd depth p t).1.Named good := by
  intro depth
  induction depth with
  | zero =>
    intro p t h hp
    unfold Tree.makeDirectories
    split
    · rename_i hmake
      exact h.makeDirectory hcwd hp hmake
    · contradiction
    · exact h
  | succ depth ih =>
    intro p t h hp
    unfold Tree.makeDirectories
    split
    · rename_i hmake
      exact h.makeDirectory hcwd hp hmake
    · rename_i hmake hdepth
      cases hdepth
      have hparent := ih (p := p.parent) h fun s hs => hp s (List.dropLast_subset _ hs)
      split
      · rename_i heq
        rw [heq] at hparent
        exact hparent
      · rename_i heq
        rw [heq] at hparent
        split
        · rename_i hmake
          exact hparent.makeDirectory hcwd hp hmake
        · exact hparent
    · exact h

end Named

end Tree

end ILDump
