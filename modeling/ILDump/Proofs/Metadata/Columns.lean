import ILDump.Proofs.Outcomes
import ILDump.Proofs.Signature.TypeTokens

/-!
# What columns name

A coded number names a table by its lowest bits and a row of it by the others. The tables that a
listing is made from have a token in its place. Nothing looks at how large the row is: numbers of
up to 32 bits leave more for the row than the 24 that a token has. So the token stands for the row
that is named exactly if that row has 24 bits, and for another one, maybe of another table, if it
has more. A plain index that names no row is put down to zero, and never names another one.

Every row of a table stream has as many numbers as its table has columns, so none is lost.
-/

namespace ILDump

theorem Token.ofRow_inj {table table' row row' : Nat} (hrow : row < 2 ^ 24)
    (hrow' : row' < 2 ^ 24) (h : ofRow table row = ofRow table' row') :
    table = table' ∧ row = row' := by
  have hparts : (ofRow table row).table = table ∧ (ofRow table row).row = row :=
    ofRow_parts_iff.mpr hrow
  have hparts' : (ofRow table' row').table = table' ∧ (ofRow table' row').row = row' :=
    ofRow_parts_iff.mpr hrow'
  rw [h] at hparts
  exact ⟨hparts.1.symm.trans hparts'.1, hparts.2.symm.trans hparts'.2⟩

/-- Whether a coded number names a row of a table. -/
def Schema.Coding.Names (c : Coding) (number table row : Nat) : Prop :=
  c.tables[number % 2 ^ c.tagBits]? = some (some table) ∧ number / 2 ^ c.tagBits = row

instance (c : Schema.Coding) (number table row : Nat) : Decidable (c.Names number table row) :=
  inferInstanceAs (Decidable (_ ∧ _))

namespace Tables

variable {raw : RawTables} {c : Schema.Coding} {number : Nat} {token : Token}

/-! ### Coded numbers -/

theorem coded?_eq_some_iff :
    coded? raw c number = some token ↔ ∃ table row, c.Names number table row ∧
      raw.has table = true ∧ row ≠ 0 ∧ token = Token.ofRow table row := by
  simp only [coded?, Schema.Coding.Names, Option.bind_eq_bind, Option.bind_eq_some_iff,
    Option.join_eq_some_iff]
  constructor
  · rintro ⟨table, htable, htoken⟩
    split at htoken
    · next hrow => exact ⟨table, _, ⟨htable, rfl⟩, hrow.1, hrow.2, (Option.some.inj htoken).symm⟩
    · cases htoken
  · rintro ⟨table, row, ⟨htable, rfl⟩, hhas, hrow, rfl⟩
    exact ⟨table, htable, if_pos ⟨hhas, hrow⟩⟩

/-- What the token in the place of a coded number stands for. -/
structure Resolves (raw : RawTables) (c : Schema.Coding) (number : Nat) (token? : Option Token) :
    Prop where
  some_iff : ∀ token, token? = some token ↔ ∃ table row, c.Names number table row ∧
    raw.has table = true ∧ row ≠ 0 ∧ token = Token.ofRow table row
  /-- It stands for the row that is named, and for no other one, exactly if that row fits. -/
  names_iff : ∀ token, token? = some token →
    ((∀ table row, row < 2 ^ 24 → (token = Token.ofRow table row ↔ c.Names number table row)) ↔
      number / 2 ^ c.tagBits < 2 ^ 24)
  /-- What does not fit runs into the number of the table. -/
  parts : ∀ token, token? = some token → ∃ table row, c.Names number table row ∧
    token.table = table ||| row / 2 ^ 24 ∧ token.row = row % 2 ^ 24

theorem names_iff_of_coded? (h : coded? raw c number = some token) :
    (∀ table row, row < 2 ^ 24 → (token = Token.ofRow table row ↔ c.Names number table row)) ↔
      number / 2 ^ c.tagBits < 2 ^ 24 := by
  obtain ⟨table, row, hnames, -, -, rfl⟩ := coded?_eq_some_iff.mp h
  obtain ⟨htag, hrow⟩ := hnames
  rw [hrow]
  constructor
  · intro hall
    have hown : Token.ofRow table row =
        Token.ofRow (Token.ofRow table row).table (Token.ofRow table row).row :=
      (Reader.ofRow_table_row _).symm
    have hfits : (Token.ofRow table row).row < 2 ^ 24 := by
      rw [Token.row_ofRow]
      exact Nat.mod_lt _ (by decide)
    have hnamed := ((hall _ _ hfits).mp hown).2
    rw [← hrow, hnamed]
    exact hfits
  · intro hfits table' row' hfits'
    constructor
    · intro heq
      obtain ⟨rfl, rfl⟩ := Token.ofRow_inj hfits hfits' heq
      exact ⟨htag, hrow⟩
    · rintro ⟨htag', hrow'⟩
      rw [htag] at htag'
      rw [Option.some.inj (Option.some.inj htag'), ← hrow, hrow']

theorem resolves_coded? (raw : RawTables) (c : Schema.Coding) (number : Nat) :
    Resolves raw c number (coded? raw c number) where
  some_iff _ := coded?_eq_some_iff
  names_iff _ := names_iff_of_coded?
  parts token h := by
    obtain ⟨table, row, hnames, -, -, rfl⟩ := coded?_eq_some_iff.mp h
    exact ⟨table, row, hnames, Token.table_ofRow _ _, Token.row_ofRow _ _⟩

end Tables

/-! ### Rows of a table stream -/

namespace RawTables

theorem length_readRow (s : Schema.Sizes) (columns : List Schema.Column) (bytes : Bytes) :
    (readRow s columns bytes).length = columns.length := by
  induction columns generalizing bytes with
  | nil => rfl
  | cons c columns ih => rw [readRow, List.length_cons, ih, List.length_cons]

theorem length_of_mem_readRows {s : Schema.Sizes} {columns : List Schema.Column} {row : List Nat} :
    ∀ {count : Nat} {bytes : Bytes}, row ∈ readRows s columns count bytes →
      row.length = columns.length
  | count + 1, bytes, h => by
    rw [readRows, List.mem_cons] at h
    rcases h with rfl | h
    · exact length_readRow s columns bytes
    · exact length_of_mem_readRows h

theorem exists_columns_of_mem_readTables {s : Schema.Sizes} {table : Nat} {rows : List (List Nat)} :
    ∀ {counts : List (Nat × Nat)} {bytes : Bytes}, (table, rows) ∈ readTables s counts bytes →
      ∃ columns, Schema.columns? table = some columns ∧ ∀ row ∈ rows, row.length = columns.length
  | (table', count) :: counts, bytes, h => by
    rw [readTables] at h
    cases hcolumns : Schema.columns? table' with
    | none =>
      rw [hcolumns] at h
      cases h
    | some columns =>
      simp only [hcolumns] at h
      split at h
      · cases h
      · rcases List.mem_cons.mp h with h | h
        · cases h
          exact ⟨columns, hcolumns, fun row => length_of_mem_readRows⟩
        · exact exists_columns_of_mem_readTables h

/-- A row has a number for each column of its table. -/
theorem length_of_mem_rowsOf {bytes : Bytes} {table : Nat} {columns : List Schema.Column}
    (hcolumns : Schema.columns? table = some columns) {row : List Nat}
    (h : row ∈ (ofStream bytes).rowsOf table) : row.length = columns.length := by
  rw [rowsOf] at h
  cases hfind : (ofStream bytes).rows.find? fun r => decide (r.1 = table) with
  | none =>
    rw [hfind] at h
    cases h
  | some r =>
    rw [hfind] at h
    have hrow : row ∈ r.2 := h
    have htable : r.1 = table := by simpa using List.find?_some hfind
    have hmem := List.mem_of_find?_eq_some hfind
    rw [ofStream] at hmem
    split at hmem
    · cases hmem
    · obtain ⟨columns', hcolumns', hlength⟩ := exists_columns_of_mem_readTables hmem
      rw [htable, hcolumns] at hcolumns'
      rw [hlength row hrow, Option.some.inj hcolumns']

end RawTables

namespace Tables

/-! ### Columns of the side tables -/

/-- The rows of the side tables beside the numbers they come from: each row is there, and says
    what its columns name. -/
structure SideColumns (raw : RawTables) (t : Tables) : Prop where
  attributes : List.Forall₂ (fun columns (r : AttributeRow) => ∃ parent constructor value,
      columns = [parent, constructor, value] ∧
      Resolves raw Schema.hasCustomAttribute parent r.parent? ∧
      Resolves raw Schema.customAttributeType constructor r.constructor?)
    (raw.rowsOf TableNumber.customAttribute) t.attributes
  constants : List.Forall₂ (fun columns (r : ConstantRow) => ∃ type parent value,
      columns = [type, parent, value] ∧ Resolves raw Schema.hasConstant parent r.parent?)
    (raw.rowsOf TableNumber.constant) t.constants
  /-- The type is named by a plain index. -/
  interfaces : List.Forall₂ (fun columns (r : InterfaceRow) => ∃ type interface,
      columns = [type, interface] ∧ (r.type ≠ 0 → r.type = type) ∧
      Resolves raw Schema.typeDefOrRef interface r.interface?)
    (raw.rowsOf TableNumber.interfaceImpl) t.interfaces

theorem index_eq (raw : RawTables) (table n : Nat) (h : index raw table n ≠ 0) :
    index raw table n = n := by
  rw [index] at h ⊢
  split
  · rfl
  · next hout => exact absurd (if_neg hout) h

theorem sideColumns_ofStreams (s : Streams) :
    SideColumns (RawTables.ofStream s.tables) (ofStreams s) where
  attributes := by
    refine forall₂_filterMap fun columns hrow => ?_
    obtain ⟨parent, constructor, value, rfl⟩ :=
      List.length_eq_three.mp (RawTables.length_of_mem_rowsOf rfl hrow)
    exact ⟨_, rfl, parent, constructor, value, rfl, resolves_coded? _ _ _, resolves_coded? _ _ _⟩
  constants := by
    refine forall₂_filterMap fun columns hrow => ?_
    obtain ⟨type, parent, value, rfl⟩ :=
      List.length_eq_three.mp (RawTables.length_of_mem_rowsOf rfl hrow)
    exact ⟨_, rfl, type, parent, value, rfl, resolves_coded? _ _ _⟩
  interfaces := by
    refine forall₂_filterMap fun columns hrow => ?_
    obtain ⟨type, interface, rfl⟩ :=
      List.length_eq_two.mp (RawTables.length_of_mem_rowsOf rfl hrow)
    exact ⟨_, rfl, type, interface, rfl, index_eq _ _ _, resolves_coded? _ _ _⟩

end Tables

end ILDump
