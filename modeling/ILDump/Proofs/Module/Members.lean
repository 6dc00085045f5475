import ILDump.Module.Loader
import ILDump.Proofs.Outcomes

/-!
# What is loaded for a row

Loading a type gives it the token of its row, and fields and methods with the tokens of
the rows in its runs, in the order of the runs and without the rows that are not there. A
method is the entry point if its token is the one that the header names.
-/

namespace ILDump

namespace Loader

variable {l : Loader} {parts : TypeParts}

theorem eq_ok_of_named {α : Type} {x : Except SignatureFault α} {a : α} (h : named x = .ok a) :
    x = .ok a := by
  cases x with
  | error e => cases h
  | ok b =>
    cases h
    rfl

/-- The rows of a run that are there. -/
def rowsThere {α : Type} (rows : List α) (run : List Nat) : List Nat :=
  run.filter fun n => (Tables.row? rows n).isSome

theorem le_length_of_mem_rowsThere {α : Type} {rows : List α} {run : List Nat} {n : Nat}
    (hn : n ∈ rowsThere rows run) : n ≤ rows.length := by
  have hsome := (List.mem_filter.mp hn).2
  by_contra hlt
  have hnone : Tables.row? rows n = none := by
    rw [Tables.row?]
    split
    · rfl
    · exact List.getElem?_eq_none (by omega)
  simp [hnone] at hsome

/-- Rows that are there are numbered below every bound of the table. -/
theorem lt_of_mem_rowsThere {α γ : Type} {rows : List α} {owners : List γ} {run : γ → List Nat}
    {bound : Nat} (hfit : rows.length < bound) :
    ∀ n ∈ owners.flatMap fun r => rowsThere rows (run r), n < bound := by
  intro n hn
  obtain ⟨r, -, hn⟩ := List.mem_flatMap.mp hn
  exact Nat.lt_of_le_of_lt (le_length_of_mem_rowsThere hn) hfit

/-- A run gives something for each of its rows that are there, in its order. -/
theorem forall₂_of_loadRun {α β : Type} {load : Nat → α → Except ModuleFault β} {rows : List α}
    {P : Nat → β → Prop} {run : List Nat} :
    ∀ {loaded : List β},
      (∀ n ∈ run, ∀ r b, Tables.row? rows n = some r → load n r = .ok b → P n b) →
      loadRun load rows run = .ok loaded → List.Forall₂ P (rowsThere rows run) loaded := by
  induction run with
  | nil =>
    rintro loaded - h
    cases h
    exact .nil
  | cons n run ih =>
    intro loaded hload h
    have hrest : ∀ m ∈ run, ∀ r b, Tables.row? rows m = some r → load m r = .ok b → P m b :=
      fun m hm => hload m (List.mem_cons_of_mem n hm)
    rw [loadRun, List.filterMap_cons] at h
    cases hn : Tables.row? rows n with
    | none =>
      rw [hn] at h
      have hthere : rowsThere rows (n :: run) = rowsThere rows run := by simp [rowsThere, hn]
      rw [hthere]
      exact ih hrest h
    | some r =>
      rw [hn, Option.map_some, List.mapM_cons] at h
      obtain ⟨b, hb, h⟩ := exists_of_bind_eq_ok h
      obtain ⟨bs, hbs, h⟩ := exists_of_bind_eq_ok h
      cases h
      have hthere : rowsThere rows (n :: run) = n :: rowsThere rows run := by simp [rowsThere, hn]
      rw [hthere]
      exact .cons (hload n List.mem_cons_self r b hn hb) (ih hrest hbs)

/-- If each row gives something with the token of the row, a run gives the tokens of the rows
    that are there, in its order. -/
theorem tokens_of_loadRun {α β : Type} {load : Nat → α → Except ModuleFault β}
    {rows : List α} {run : List Nat} {loaded : List β} {table : Nat} {token : β → Token}
    (hload : ∀ n r b, load n r = .ok b → token b = Token.ofRow table n)
    (h : loadRun load rows run = .ok loaded) :
    loaded.map token = (rowsThere rows run).map (Token.ofRow table) :=
  map_eq_map_of_forall₂ (forall₂_of_loadRun (fun n _ r b _ hb => hload n r b hb) h)

theorem token_of_field {n : Nat} {r : FieldRow} {f : FieldDefinition}
    (h : l.field n r = .ok f) : f.token = Token.ofRow TableNumber.field n := by
  obtain ⟨type, -, h⟩ := exists_of_bind_eq_ok h
  cases h
  rfl

/-- A method is made of its row, its signature and its body. -/
theorem exists_of_method {n : Nat} {r : MethodRow} {m : MethodDefinition}
    (h : l.method n r = .ok m) :
    ∃ signature body?, named (l.tables.methodSignature r.signature) = .ok signature ∧
      (if hasBody r then some <$> l.body r.address else pure none) = .ok body? ∧
      m = l.methodWith n r signature body? := by
  obtain ⟨signature, hsignature, h⟩ := exists_of_bind_eq_ok h
  dsimp only at h
  split at h
  all_goals
    obtain ⟨body?, hbody, h⟩ := exists_of_bind_eq_ok h
    cases h
  · exact ⟨signature, body?, hsignature, by rwa [if_pos ‹_›], rfl⟩
  · exact ⟨signature, body?, hsignature, by rwa [if_neg ‹_›], rfl⟩

theorem of_method {n : Nat} {r : MethodRow} {m : MethodDefinition} (h : l.method n r = .ok m) :
    m.token = Token.ofRow TableNumber.method n ∧
      m.isEntryPoint = decide (m.token = l.source.header.entryPoint) := by
  obtain ⟨signature, body?, -, -, rfl⟩ := exists_of_method h
  exact ⟨rfl, rfl⟩

theorem entryPoint_of_loadRun {rows : List MethodRow} {run : List Nat}
    {loaded : List MethodDefinition} (h : loadRun l.method rows run = .ok loaded) :
    ∀ m ∈ loaded, m.isEntryPoint = decide (m.token = l.source.header.entryPoint) := by
  intro m hm
  obtain ⟨p, hp⟩ := exists_of_forall₂ (forall₂_of_mapM h) hm
  exact (of_method hp).2

/-- What is loaded for a row of the types, by tokens. -/
structure Matches (l : Loader) (n : Nat) (r : TypeDefRow) (info : TypeInfo) : Prop where
  token : info.token = Token.ofRow TableNumber.typeDef n
  fields : info.fields.map (·.token) =
    (rowsThere l.tables.fields r.fields).map (Token.ofRow TableNumber.field)
  methods : info.methods.map (·.token) =
    (rowsThere l.tables.methods r.methods).map (Token.ofRow TableNumber.method)
  entryPoint : ∀ m ∈ info.methods,
    m.isEntryPoint = decide (m.token = l.source.header.entryPoint)

/-- A type is made of its row, the names of its base type and of the type around it, and what
    its runs give. -/
theorem exists_of_typeInfo {n : Nat} {r : TypeDefRow} {info : TypeInfo}
    (h : l.typeInfo parts n r = .ok info) :
    ∃ extends? enclosing? fields methods,
      (match r.extends? with
        | some base => some <$> named (l.tables.typeName base)
        | none => pure none) = .ok extends? ∧
      named (l.tables.around? n) = .ok enclosing? ∧
      loadRun l.field l.tables.fields r.fields = .ok fields ∧
      loadRun l.method l.tables.methods r.methods = .ok methods ∧
      info = l.typeWith parts n r extends? enclosing? fields methods := by
  rw [Loader.typeInfo] at h
  cases hbase : r.extends?
  all_goals
    simp only [hbase] at h
    obtain ⟨extends?, hextends, h⟩ := exists_of_bind_eq_ok h
    obtain ⟨enclosing?, henclosing, h⟩ := exists_of_bind_eq_ok h
    obtain ⟨fields, hfields, h⟩ := exists_of_bind_eq_ok h
    obtain ⟨methods, hmethods, h⟩ := exists_of_bind_eq_ok h
    cases h
    exact ⟨extends?, enclosing?, fields, methods, hextends, henclosing, hfields, hmethods, rfl⟩

theorem matches_of_typeInfo {n : Nat} {r : TypeDefRow} {info : TypeInfo}
    (h : l.typeInfo parts n r = .ok info) : Matches l n r info := by
  obtain ⟨extends?, enclosing?, fields, methods, -, -, hfields, hmethods, rfl⟩ :=
    exists_of_typeInfo h
  refine ⟨rfl, ?_, ?_, ?_⟩
  · exact tokens_of_loadRun (fun _ _ _ => token_of_field) hfields
  · exact tokens_of_loadRun (fun _ _ _ hm => (of_method hm).1) hmethods
  · exact entryPoint_of_loadRun hmethods

/-- What is loaded for the rows of the types, row by row. -/
def LoadedRows (l : Loader) (parts : TypeParts) (infos : List TypeInfo) : Prop :=
  List.Forall₂ (fun p info => l.typeInfo parts p.1 p.2 = .ok info)
    (l.tables.typeDefs.mapIdx fun i r => (i + 1, r)) infos

theorem LoadedRows.length_eq {infos : List TypeInfo} (h : LoadedRows l parts infos) :
    infos.length = l.tables.typeDefs.length := by
  have hlength := List.Forall₂.length_eq h
  rw [List.length_mapIdx] at hlength
  exact hlength.symm

theorem LoadedRows.exists_row {infos : List TypeInfo} (h : LoadedRows l parts infos) {n : Nat}
    {info : TypeInfo} (hinfo : Tables.row? infos n = some info) :
    ∃ r, Tables.row? l.tables.typeDefs n = some r ∧ l.typeInfo parts n r = .ok info := by
  rw [Tables.row?] at hinfo
  split at hinfo
  · cases hinfo
  · rename_i hzero
    obtain ⟨hlt, hget⟩ := List.getElem?_eq_some_iff.mp hinfo
    have hlt' : n - 1 < l.tables.typeDefs.length := by
      rw [← h.length_eq]
      exact hlt
    have hload := List.Forall₂.get h (by simpa using hlt') hlt
    simp only [List.get_eq_getElem, List.getElem_mapIdx, hget] at hload
    have hsucc : n - 1 + 1 = n := by omega
    rw [hsucc] at hload
    refine ⟨l.tables.typeDefs[n - 1], ?_, hload⟩
    rw [Tables.row?, if_neg hzero]
    exact List.getElem?_eq_getElem hlt'

theorem LoadedRows.matches {infos : List TypeInfo} (h : LoadedRows l parts infos) {n : Nat}
    {info : TypeInfo} (hinfo : Tables.row? infos n = some info) :
    ∃ r, Tables.row? l.tables.typeDefs n = some r ∧ Matches l n r info := by
  obtain ⟨r, hr, hload⟩ := h.exists_row hinfo
  exact ⟨r, hr, matches_of_typeInfo hload⟩

/-- Loading all types is loading all rows and putting them into a forest. -/
theorem exists_of_types {ts : List TypeDefinition} (h : l.types = .ok ts) :
    ∃ parts infos, l.typeParts = .ok parts ∧ LoadedRows l parts infos ∧
      ts = forest l.tables infos l.tables.typeDefs.length none := by
  obtain ⟨parts, hparts, h⟩ := exists_of_bind_eq_ok h
  obtain ⟨infos, hinfos, h⟩ := exists_of_bind_eq_ok h
  cases h
  exact ⟨parts, infos, hparts, forall₂_of_mapM hinfos, rfl⟩

end Loader

end ILDump
