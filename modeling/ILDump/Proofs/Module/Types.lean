import ILDump.Proofs.Module.TokenOrder
import Mathlib.Algebra.Group.Nat.Defs
import Mathlib.Data.List.Nodup

/-!
# The types of a module

All types that are loaded, with their fields and methods: each row of the tables is there
once and where it belongs, whatever the nesting rows say, as long as no type is nested in
itself through others. If the runs of different types do not overlap, no two rows have the
same token, and no two methods are the entry point.
-/

namespace ILDump

/-! ### Tokens apart -/

/-- Row numbers below the lowest bit of the number of their table stay apart from it. -/
theorem Token.value_ofRow {k n : Nat} (hn : n < 2 ^ 25) :
    (Token.ofRow (2 * k) n).value = k * 2 ^ 25 + n := by
  have hshift : (2 * k) <<< 24 = k <<< 25 := by
    rw [Nat.shiftLeft_eq, Nat.shiftLeft_eq]
    omega
  have hor : k <<< 25 ||| n = k <<< 25 + n := (Nat.shiftLeft_add_eq_or_of_lt hn k).symm
  rw [Token.ofRow, hshift, hor, Nat.shiftLeft_eq]

-- from there on, rows of one table share their tokens
example : Token.ofRow TableNumber.typeDef (2 ^ 25 + 1) = Token.ofRow TableNumber.typeDef 1 := by
  decide

theorem Token.nodup_map_ofRow {k : Nat} {rows : List Nat} (hrows : rows.Nodup)
    (hsmall : ∀ n ∈ rows, n < 2 ^ 25) : (rows.map (Token.ofRow (2 * k))).Nodup := by
  refine hrows.map_on fun n hn m hm heq => ?_
  have hvalue := congrArg Token.value heq
  rw [Token.value_ofRow (hsmall n hn), Token.value_ofRow (hsmall m hm)] at hvalue
  omega

namespace Loader

variable {l : Loader} {parts : TypeParts} {infos : List TypeInfo}

/-! ### Rows of the members -/

def allTokens (entries : List (Option Token × TypeInfo)) : List Token :=
  entries.map (·.2.token) ++ (entries.flatMap fun e => e.2.fields.map (·.token)) ++
    entries.flatMap fun e => e.2.methods.map (·.token)

def allMethods (entries : List (Option Token × TypeInfo)) : List MethodDefinition :=
  entries.flatMap (·.2.methods)

/-- The rows of the fields that are in the run of some type and there. -/
def fieldRows (t : Tables) : List Nat :=
  t.typeDefs.flatMap fun r => rowsThere t.fields r.fields

def methodRows (t : Tables) : List Nat :=
  t.typeDefs.flatMap fun r => rowsThere t.methods r.methods

/-- No row is twice in a run, and none in two. -/
def DisjointRuns (runs : List (List Nat)) : Prop :=
  (∀ run ∈ runs, run.Nodup) ∧ runs.Pairwise List.Disjoint

/-- The runs in the tables of a file have no row twice, since they ascend. -/
theorem nodup_runs_ofStreams (s : Streams) :
    ∀ r ∈ (Tables.ofStreams s).typeDefs, r.fields.Nodup ∧ r.methods.Nodup := by
  intro r hr
  have hruns := Tables.ascendingRuns_ofStreams s
  exact ⟨(hruns.fields r hr).imp Nat.ne_of_lt, (hruns.methods r hr).imp Nat.ne_of_lt⟩

/-- For the tables of a file, it is enough that no two runs overlap. -/
theorem disjointRuns_ofStreams (s : Streams) :
    let ts := (Tables.ofStreams s).typeDefs
    (DisjointRuns (ts.map (·.fields)) ↔ (ts.map (·.fields)).Pairwise List.Disjoint) ∧
      (DisjointRuns (ts.map (·.methods)) ↔ (ts.map (·.methods)).Pairwise List.Disjoint) := by
  intro ts
  constructor
  · refine and_iff_right fun run hrun => ?_
    obtain ⟨r, hr, rfl⟩ := List.mem_map.mp hrun
    exact (nodup_runs_ofStreams s r hr).1
  · refine and_iff_right fun run hrun => ?_
    obtain ⟨r, hr, rfl⟩ := List.mem_map.mp hrun
    exact (nodup_runs_ofStreams s r hr).2

/-- Tables with row numbers that leave the table number of a token as it is. In a file that
    keeps to its format no table is as long: a token has 24 bits for the row. -/
def RowsFit (t : Tables) : Prop :=
  t.typeDefs.length < 2 ^ 25 ∧ t.fields.length < 2 ^ 25 ∧ t.methods.length < 2 ^ 25

/-! The rows in the runs of one kind of member, for fields and methods alike. -/

section Runs

variable {α : Type} {rows : List α} {defs : List TypeDefRow} {run : TypeDefRow → List Nat}

theorem nodup_rowsThere (h : DisjointRuns (defs.map run)) :
    (defs.flatMap fun r => rowsThere rows (run r)).Nodup := by
  have hall : (defs.map run).flatten.Nodup := List.nodup_flatten.mpr h
  have hfilter : (defs.flatMap fun r => rowsThere rows (run r)) =
      (defs.map run).flatten.filter fun n => (Tables.row? rows n).isSome := by
    rw [List.filter_flatten, List.map_map, List.flatMap_def]
    rfl
  rw [hfilter]
  exact hall.filter _

end Runs

/-! ### Tokens of what was loaded -/

theorem map_numbered (rows : List TypeDefRow) :
    (rows.mapIdx fun i r => (i + 1, r)).map (·.1) = List.range' 1 rows.length ∧
      (rows.mapIdx fun i r => (i + 1, r)).map (·.2) = rows := by
  constructor
  · apply List.ext_getElem
    · simp
    · intro i _ _
      simp [Nat.add_comm]
  · apply List.ext_getElem
    · simp
    · intro i _ _
      simp

theorem LoadedRows.forall₂_matches (h : LoadedRows l parts infos) :
    List.Forall₂ (fun p info => Matches l p.1 p.2 info)
      (l.tables.typeDefs.mapIdx fun i r => (i + 1, r)) infos :=
  List.Forall₂.imp (fun _ _ => matches_of_typeInfo) h

theorem LoadedRows.typeTokens (h : LoadedRows l parts infos) :
    infos.map (·.token) = (List.range' 1 l.tables.typeDefs.length).map typeToken := by
  rw [← (map_numbered l.tables.typeDefs).1, List.map_map]
  have heach := h.forall₂_matches
  clear h
  generalize (l.tables.typeDefs.mapIdx fun i r => (i + 1, r)) = rows at heach ⊢
  induction heach with
  | nil => rfl
  | cons hmatch _ ih =>
    rw [List.map_cons, List.map_cons, ih, hmatch.token]
    rfl

theorem flatMap_numbered {f : TypeDefRow → List Token} {g : TypeInfo → List Token}
    (h : List.Forall₂ (fun (p : Nat × TypeDefRow) info => g info = f p.2)
      (l.tables.typeDefs.mapIdx fun i r => (i + 1, r)) infos) :
    infos.flatMap g = l.tables.typeDefs.flatMap f := by
  have hnumbered := congrArg (List.flatMap f) (map_numbered l.tables.typeDefs).2
  rw [List.flatMap_map] at hnumbered
  rw [← hnumbered]
  exact flatMap_eq_of_forall₂ h

theorem LoadedRows.fieldTokens (h : LoadedRows l parts infos) :
    (infos.flatMap fun info => info.fields.map (·.token)) =
      (fieldRows l.tables).map (Token.ofRow TableNumber.field) := by
  rw [fieldRows, List.map_flatMap]
  exact flatMap_numbered (h.forall₂_matches.imp fun _ _ hmatch => hmatch.fields)

theorem LoadedRows.methodTokens (h : LoadedRows l parts infos) :
    (infos.flatMap fun info => info.methods.map (·.token)) =
      (methodRows l.tables).map (Token.ofRow TableNumber.method) := by
  rw [methodRows, List.map_flatMap]
  exact flatMap_numbered (h.forall₂_matches.imp fun _ _ hmatch => hmatch.methods)

theorem map_rowEntries (t : Tables) (infos : List TypeInfo) :
    (rowEntries t infos).map (·.2) = infos := by
  rw [rowEntries, List.map_map]
  exact List.zipIdx_map_fst 1 infos

theorem allTokens_rowEntries (h : LoadedRows l parts infos) :
    allTokens (rowEntries l.tables infos) =
      (List.range' 1 l.tables.typeDefs.length).map typeToken ++
        (fieldRows l.tables).map (Token.ofRow TableNumber.field) ++
        (methodRows l.tables).map (Token.ofRow TableNumber.method) := by
  rw [← h.typeTokens, ← h.fieldTokens, ← h.methodTokens]
  conv_rhs => rw [← map_rowEntries l.tables infos]
  rw [allTokens, List.map_map, List.flatMap_map, List.flatMap_map]
  rfl

theorem allTokens_perm {es es' : List (Option Token × TypeInfo)} (h : es.Perm es') :
    (allTokens es).Perm (allTokens es') :=
  ((h.map _).append (h.flatMap_right _)).append (h.flatMap_right _)

/-- Rows of different tables have different tokens, and so have the rows of one. -/
theorem nodup_tokens {types fields methods : List Nat} (htypes : types.Nodup)
    (hfields : fields.Nodup) (hmethods : methods.Nodup) (htypes' : ∀ n ∈ types, n < 2 ^ 25)
    (hfields' : ∀ n ∈ fields, n < 2 ^ 25) (hmethods' : ∀ n ∈ methods, n < 2 ^ 25) :
    (types.map typeToken ++ fields.map (Token.ofRow TableNumber.field) ++
      methods.map (Token.ofRow TableNumber.method)).Nodup := by
  have hvalue {k : Nat} {rows : List Nat} (hrows : ∀ n ∈ rows, n < 2 ^ 25) :
      ∀ token ∈ rows.map (Token.ofRow (2 * k)), token.value / 2 ^ 25 = k := by
    intro token htoken
    obtain ⟨n, hn, rfl⟩ := List.mem_map.mp htoken
    have hlt := hrows n hn
    rw [Token.value_ofRow hlt]
    omega
  have htype := hvalue (k := 1) htypes'
  have hfield := hvalue (k := 2) hfields'
  have hmethod := hvalue (k := 3) hmethods'
  refine List.nodup_append.mpr ⟨List.nodup_append.mpr ⟨?_, ?_, ?_⟩, ?_, ?_⟩
  · exact Token.nodup_map_ofRow (k := 1) htypes htypes'
  · exact Token.nodup_map_ofRow (k := 2) hfields hfields'
  · intro a ha b hb heq
    have h1 := htype a ha
    have h2 := hfield b hb
    rw [heq] at h1
    omega
  · exact Token.nodup_map_ofRow (k := 3) hmethods hmethods'
  · intro a ha b hb heq
    have h3 := hmethod b hb
    rcases List.mem_append.mp ha with ha | ha
    · have h1 := htype a ha
      rw [heq] at h1
      omega
    · have h2 := hfield a ha
      rw [heq] at h2
      omega

/-! ### The entry point -/

theorem length_le_one_of_forall_eq {α : Type} {xs : List α} {a : α} (hnodup : xs.Nodup)
    (hall : ∀ x ∈ xs, x = a) : xs.length ≤ 1 := by
  match xs, hnodup, hall with
  | [], _, _ => exact Nat.zero_le 1
  | [_], _, _ => exact Nat.le_refl 1
  | x :: y :: _, hnodup, hall =>
    have hxy : x = y := (hall x (by simp)).trans (hall y (by simp)).symm
    simp [hxy] at hnodup

theorem length_entryPoints_le_one {methods : List MethodDefinition} {entryPoint : Token}
    (hnodup : (methods.map (·.token)).Nodup)
    (hentry : ∀ m ∈ methods, m.isEntryPoint = decide (m.token = entryPoint)) :
    (methods.filter (·.isEntryPoint)).length ≤ 1 := by
  have hsub : ((methods.filter (·.isEntryPoint)).map (·.token)).Nodup :=
    hnodup.sublist (List.filter_sublist.map _)
  rw [← List.length_map (·.token)]
  refine length_le_one_of_forall_eq (a := entryPoint) hsub fun token htoken => ?_
  obtain ⟨m, hm, rfl⟩ := List.mem_map.mp htoken
  obtain ⟨hmem, hm⟩ := List.mem_filter.mp hm
  rw [hentry m hmem] at hm
  exact of_decide_eq_true hm

/-! ### All together -/

/-- Types that hold every row of the tables where it belongs. -/
structure Faithful (l : Loader) (infos : List TypeInfo) (ts : List TypeDefinition) : Prop where
  /-- The type around a type is named by the last of its nesting rows, if it is there and
      another one. -/
  parents : ∀ n outer, parent? l.tables n = some outer ↔
    (∃ before after, l.tables.nestedClasses = before ++ ⟨n, outer⟩ :: after ∧
      ∀ r ∈ after, r.nested ≠ n) ∧
    outer ≠ n ∧ outer ≠ 0 ∧ outer ≤ l.tables.typeDefs.length
  /-- What is loaded for a row has the tokens of the row and of its members, in order. -/
  rows : ∀ n info, Tables.row? infos n = some info →
    ∃ r, Tables.row? l.tables.typeDefs n = some r ∧ Matches l n r info
  /-- Every type stands for a row, with the rows inside it in it, ascending. -/
  places : ∃ roots, Siblings l.tables none roots ∧ List.Forall₂ (IsRow l.tables infos) roots ts
  /-- Every row occurs once, at whatever depth. -/
  once : infos.length = l.tables.typeDefs.length ∧
    (TypeDefinition.entriesOfEach none ts).Perm (rowEntries l.tables infos)
  membersOnce : (allTokens (TypeDefinition.entriesOfEach none ts)).Perm
    ((List.range' 1 l.tables.typeDefs.length).map typeToken ++
      (fieldRows l.tables).map (Token.ofRow TableNumber.field) ++
      (methodRows l.tables).map (Token.ofRow TableNumber.method))
  fieldRows : DisjointRuns (l.tables.typeDefs.map (·.fields)) → (fieldRows l.tables).Nodup
  methodRows : DisjointRuns (l.tables.typeDefs.map (·.methods)) → (methodRows l.tables).Nodup
  tokens : DisjointRuns (l.tables.typeDefs.map (·.fields)) →
    DisjointRuns (l.tables.typeDefs.map (·.methods)) → RowsFit l.tables →
    (allTokens (TypeDefinition.entriesOfEach none ts)).Nodup
  entryPoint : DisjointRuns (l.tables.typeDefs.map (·.methods)) → RowsFit l.tables →
    ((allMethods (TypeDefinition.entriesOfEach none ts)).filter (·.isEntryPoint)).length ≤ 1

theorem isEntryPoint_of_mem (hloaded : LoadedRows l parts infos)
    {es : List (Option Token × TypeInfo)} (honce : es.Perm (rowEntries l.tables infos)) :
    ∀ m ∈ allMethods es, m.isEntryPoint = decide (m.token = l.source.header.entryPoint) := by
  intro m hm
  obtain ⟨e, he, hm⟩ := List.mem_flatMap.mp hm
  have hinfo : e.2 ∈ infos := by
    rw [← map_rowEntries l.tables infos]
    exact List.mem_map_of_mem (honce.mem_iff.mp he)
  obtain ⟨p, hmatch⟩ := exists_of_forall₂ hloaded.forall₂_matches hinfo
  exact hmatch.entryPoint m hm

theorem methodTokens_perm (hloaded : LoadedRows l parts infos)
    {es : List (Option Token × TypeInfo)} (honce : es.Perm (rowEntries l.tables infos)) :
    ((allMethods es).map (·.token)).Perm
      ((methodRows l.tables).map (Token.ofRow TableNumber.method)) := by
  rw [← hloaded.methodTokens]
  conv_rhs => rw [← map_rowEntries l.tables infos]
  rw [List.flatMap_map, allMethods, List.map_flatMap]
  exact honce.flatMap_right _

/-- **Nothing is lost or duplicated when the types are loaded.** Whatever the tables hold, if
    no type is nested in itself through others and loading succeeds, the types that come out
    hold every row once and where it belongs. Where this is said of tokens, it is said of tables
    within the bound of the format: a token has 24 bits for the number of a row, so a table of a
    file that keeps to its format has fewer than `2 ^ 24` rows, and `RowsFit` is no more than
    that. -/
theorem types_faithful {ts : List TypeDefinition} (hload : l.types = .ok ts)
    (hacyclic : NoCycles l.tables) :
    ∃ parts infos, l.typeParts = .ok parts ∧ LoadedRows l parts infos ∧
      Faithful l infos ts := by
  obtain ⟨parts, infos, hparts, hloaded, rfl⟩ := exists_of_types hload
  have hinfos := hloaded.length_eq
  have htokens : ∀ n info, Tables.row? infos n = some info → info.token = typeToken n := by
    intro n info hinfo
    obtain ⟨r, -, hmatch⟩ := hloaded.matches hinfo
    exact hmatch.token
  have honce := entries_perm hacyclic hinfos htokens
  have hmembers := allTokens_perm honce
  rw [allTokens_rowEntries hloaded] at hmembers
  refine ⟨parts, infos, hparts, hloaded, ?_⟩
  exact {
    parents := fun n outer => parent?_eq_some_iff
    rows := fun n info hinfo => hloaded.matches hinfo
    places := ⟨_, siblings_childrenOf none, forest_isRow_top hacyclic hinfos⟩
    once := ⟨hinfos, honce⟩
    membersOnce := hmembers
    fieldRows := nodup_rowsThere
    methodRows := nodup_rowsThere
    tokens := by
      rintro hfields hmethods ⟨htypes', hfields', hmethods'⟩
      refine hmembers.nodup_iff.mpr (nodup_tokens List.nodup_range' (nodup_rowsThere hfields)
        (nodup_rowsThere hmethods) ?_ (lt_of_mem_rowsThere hfields')
        (lt_of_mem_rowsThere hmethods'))
      intro n hn
      have hle := (mem_typeRows.mp hn).2
      omega
    entryPoint := by
      rintro hmethods ⟨-, -, hmethods'⟩
      have hnodup := Token.nodup_map_ofRow (k := 3) (nodup_rowsThere hmethods)
        (lt_of_mem_rowsThere hmethods')
      exact length_entryPoints_le_one ((methodTokens_perm hloaded honce).nodup_iff.mpr hnodup)
        (isEntryPoint_of_mem hloaded honce) }

/-- Three types, of which the second lies in the third: an earlier nesting row names a type
    that is not there, and the third type is nested in itself. The third type has a field
    and a method, which is the entry point. -/
def sampleLoader : Loader where
  source := {
    executable := ⟨[], 0, 0, 0, 0, 0, 0, 0, [], 0⟩
    header := ⟨0, 0, 0, Token.ofRow TableNumber.method 1⟩
    tables := {
      modules := [], typeRefs := [], params := [], interfaces := [], memberRefs := []
      constants := [], attributes := [], standAloneSigs := [], eventMaps := [], events := []
      propertyMaps := [], properties := [], semantics := [], moduleRefs := [], typeSpecs := []
      assemblies := [], assemblyRefs := [], genericParams := [], methodSpecs := []
      userStrings := []
      typeDefs := [⟨0, "A", "N", none, [], []⟩, ⟨0, "B", "", none, [], []⟩,
        ⟨0, "C", "N", none, [1], [1]⟩]
      fields := [⟨0, "f", [0x06, 0x08]⟩]
      methods := [⟨0, 0, 0, "m", [0x00, 0x00, 0x01], []⟩]
      nestedClasses := [⟨2, 9⟩, ⟨2, 3⟩, ⟨3, 3⟩] } }
  attachments := ⟨[], []⟩

/-- The hypotheses hold together, with a type that is nested and one that has members. -/
theorem types_faithful_sample : ∃ ts, sampleLoader.types = .ok ts ∧
    NoCycles sampleLoader.tables ∧
    DisjointRuns (sampleLoader.tables.typeDefs.map (·.fields)) ∧
    DisjointRuns (sampleLoader.tables.typeDefs.map (·.methods)) ∧
    RowsFit sampleLoader.tables ∧
    ∃ parts infos, sampleLoader.typeParts = .ok parts ∧
      LoadedRows sampleLoader parts infos ∧ Faithful sampleLoader infos ts := by
  have hup : ∀ n outer, Inside sampleLoader.tables n outer → n < outer := by
    intro n outer hinside
    obtain ⟨⟨before, after, hsplit, -⟩, hself, -, -⟩ := parent?_eq_some_iff.mp hinside
    have hmem : (⟨n, outer⟩ : NestedClassRow) ∈ sampleLoader.tables.nestedClasses := by
      simp [hsplit]
    simp [tables, sampleLoader] at hmem
    omega
  have hacyclic : NoCycles sampleLoader.tables := by
    intro n hcycle
    have hlt : ∀ m, Relation.TransGen (Inside sampleLoader.tables) n m → n < m := by
      intro m hm
      induction hm with
      | single hinside => exact hup _ _ hinside
      | tail _ hinside ih => exact Nat.lt_trans ih (hup _ _ hinside)
    exact absurd (hlt n hcycle) (Nat.lt_irrefl n)
  have hok : ∃ ts, sampleLoader.types = .ok ts := ⟨_, rfl⟩
  obtain ⟨ts, hload⟩ := hok
  refine ⟨ts, hload, hacyclic, ?_, ?_, ?_, types_faithful hload hacyclic⟩
  · simp [DisjointRuns, tables, sampleLoader]
  · simp [DisjointRuns, tables, sampleLoader]
  · simp [RowsFit, tables, sampleLoader]

end Loader

end ILDump
