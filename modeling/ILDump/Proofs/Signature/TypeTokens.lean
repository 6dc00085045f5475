import ILDump.Module.Naming
import ILDump.Proofs.Outcomes
import ILDump.Proofs.Signature.Integers

/-!
# What a coded type token names

A coded value has 29 bits: two select the table, which leaves 27 for the row. A token keeps
a row in 24 bits, with the table's number right above. So the token names what the coded
value names exactly if the row fits, and then the value can be read back from the token. A
longer row runs into the table's number, and the token names something else: another row of
the same table, or a row of another one.
-/

namespace ILDump

/-! ### Tables and rows of tokens -/

namespace Token

/-- What does not fit into the row stands in the number of the table. -/
theorem table_ofRow (table row : Nat) : (ofRow table row).table = table ||| row / 2 ^ 24 := by
  rw [Token.table, ofRow, Nat.shiftRight_or_distrib, Nat.shiftLeft_shiftRight,
    Nat.shiftRight_eq_div_pow]

theorem row_ofRow (table row : Nat) : (ofRow table row).row = row % 2 ^ 24 := by
  have hmask (n : Nat) : n &&& 0xFFFFFF = n % 2 ^ 24 := Nat.and_two_pow_sub_one_eq_mod n 24
  have htable : (table <<< 24) % 2 ^ 24 = 0 := by
    rw [Nat.shiftLeft_eq, Nat.mul_mod_left]
  rw [Token.row, ofRow, hmask, Nat.or_mod_two_pow, htable, Nat.zero_or]

theorem ofRow_parts_iff {table row : Nat} :
    ((ofRow table row).table = table ∧ (ofRow table row).row = row) ↔ row < 2 ^ 24 := by
  rw [table_ofRow, row_ofRow]
  constructor
  · rintro ⟨-, hrow⟩
    rw [← hrow]
    exact Nat.mod_lt row (by decide)
  · intro hrow
    rw [Nat.div_eq_of_lt hrow, Nat.or_zero]
    exact ⟨rfl, Nat.mod_eq_of_lt hrow⟩

end Token

/-! ### Coded values -/

namespace Reader

/-- A token with the table that the tag of a coded value selects and the row above the tag. -/
def NamesCoded (coded : Nat) (token : Token) : Prop :=
  typeTable? (coded % 4) = some token.table ∧ token.row = coded / 4

theorem exists_coded {c stop : Cursor} {token : Token} (h : typeToken.run c = .ok token stop) :
    ∃ coded table, compressed.run c = .ok coded stop ∧ typeTable? (coded % 4) = some table ∧
      token = Token.ofRow table (coded / 4) := by
  obtain ⟨coded, stop', hcoded, h⟩ := exists_of_bind_run h
  cases htable : typeTable? (coded % 4) with
  | none =>
    rw [htable] at h
    cases h
  | some table =>
    rw [htable] at h
    cases h
    exact ⟨coded, table, hcoded, htable, rfl⟩

theorem namesCoded_ofRow_iff {coded table : Nat} (htable : typeTable? (coded % 4) = some table) :
    NamesCoded coded (Token.ofRow table (coded / 4)) ↔ coded / 4 < 2 ^ 24 := by
  have hparts : (Token.ofRow table (coded / 4)).table = table ∧
      (Token.ofRow table (coded / 4)).row = coded / 4 ↔ coded / 4 < 2 ^ 24 := Token.ofRow_parts_iff
  rw [← hparts, NamesCoded, htable, Option.some_inj]
  exact and_congr_left' eq_comm

theorem typeTable?_eq_some_iff {tag table : Nat} :
    typeTable? tag = some table ↔
      (tag = 0 ∧ table = TableNumber.typeDef) ∨ (tag = 1 ∧ table = TableNumber.typeRef) ∨
        (tag = 2 ∧ table = TableNumber.typeSpec) := by
  match tag with
  | 0 => simp [typeTable?, eq_comm]
  | 1 => simp [typeTable?, eq_comm]
  | 2 => simp [typeTable?, eq_comm]
  | tag + 3 => simp [typeTable?]

/-- A token that names what a coded value names determines the value. -/
theorem NamesCoded.unique {a b : Nat} {token : Token} (ha : NamesCoded a token)
    (hb : NamesCoded b token) : a = b := by
  have hrow : a / 4 = b / 4 := ha.2.symm.trans hb.2
  have htag : a % 4 = b % 4 := by
    have ha := typeTable?_eq_some_iff.mp ha.1
    have hb := typeTable?_eq_some_iff.mp hb.1
    simp only [TableNumber.typeDef, TableNumber.typeRef, TableNumber.typeSpec] at ha hb
    omega
  omega

theorem NamesCoded.isTypeToken {coded : Nat} {token : Token} (h : NamesCoded coded token) :
    token.IsTypeToken := by
  rcases typeTable?_eq_some_iff.mp h.1 with ⟨-, h⟩ | ⟨-, h⟩ | ⟨-, h⟩
  · exact .inl h
  · exact .inr (.inl h)
  · exact .inr (.inr h)

end Reader

/-! ### Looking up what is named -/

/-- The name of a row of one of the tables of types. -/
def Tables.rowName (t : Tables) (table row : Nat) : Except SignatureFault String :=
  if table = TableNumber.typeDef then t.typeDefName row
  else if table = TableNumber.typeRef then t.typeRefName row
  else
    match Tables.row? t.typeSpecs row with
    | some signature =>
      ((Reader.type (t.typeNameWithin (t.typeSpecs.length - 1))).decode signature).map TypeSig.text
    | none => .ok (Token.ofRow table row).text

/-- A type token is looked up in its table, at its row. -/
theorem Tables.typeName_eq_rowName (t : Tables) {token : Token} (h : token.IsTypeToken) :
    t.typeName token = t.rowName token.table token.row := by
  rw [typeName, typeNameWithin.eq_def, rowName, Reader.ofRow_table_row]
  rcases h with h | h | h
  · simp only [h, if_true]
  · simp [h]
  · cases hrow : Tables.row? t.typeSpecs token.row with
    | none => simp [h, hrow]
    | some signature =>
      cases hlength : t.typeSpecs.length with
      | zero =>
        rw [List.length_eq_zero_iff.mp hlength, Tables.row?] at hrow
        split at hrow <;> cases hrow
      | succ depth => simp [h, hrow]

namespace Reader

/-- **What a coded type token names.** A token that was read names what its coded value names
    if and only if the row has at most 24 bits; in any case its table and row are those of
    the value, with the bits above the 24th in the table's number. If the row fits, names
    are looked up for the row of the table that the value names, and no other such value
    gives the same token. -/
theorem typeToken_names {c stop : Cursor} {token : Token}
    (hread : typeToken.run c = .ok token stop) :
    ∃ coded table, compressed.run c = .ok coded stop ∧ typeTable? (coded % 4) = some table ∧
      token.table = table ||| coded / 4 / 2 ^ 24 ∧ token.row = coded / 4 % 2 ^ 24 ∧
      (NamesCoded coded token ↔ coded / 4 < 2 ^ 24) ∧
      (coded / 4 < 2 ^ 24 →
        (∀ t : Tables, t.typeName token = t.rowName table (coded / 4)) ∧
        ∀ c' stop' coded', typeToken.run c' = .ok token stop' →
          compressed.run c' = .ok coded' stop' → coded' / 4 < 2 ^ 24 → coded' = coded) := by
  obtain ⟨coded, table, hcoded, htable, rfl⟩ := exists_coded hread
  have hnames := namesCoded_ofRow_iff htable
  refine ⟨coded, table, hcoded, htable, Token.table_ofRow _ _, Token.row_ofRow _ _, hnames, ?_⟩
  intro hrow
  obtain ⟨hparts, hrest⟩ := Token.ofRow_parts_iff.mpr hrow
  refine ⟨fun t => ?_, ?_⟩
  · rw [t.typeName_eq_rowName (hnames.mpr hrow).isTypeToken, hparts, hrest]
  · intro c' stop' coded' hread' hcoded' hrow'
    obtain ⟨again, table', hagain, htable', heq⟩ := exists_coded hread'
    rw [hcoded'] at hagain
    cases hagain
    have hnames' : NamesCoded coded' (Token.ofRow table (coded / 4)) := by
      rw [heq]
      exact (namesCoded_ofRow_iff htable').mpr hrow'
    exact hnames'.unique (hnames.mpr hrow)

/-- The last row that fits, of the referenced types. -/
theorem typeToken_names_lastRow :
    typeToken.run (Cursor.start [0xC3, 0xFF, 0xFF, 0xFD]) =
        .ok (Token.ofRow TableNumber.typeRef 0xFFFFFF) ⟨[], 4⟩ ∧
      NamesCoded 0x3FFFFFD (Token.ofRow TableNumber.typeRef 0xFFFFFF) ∧
      ∀ t : Tables, t.typeName (Token.ofRow TableNumber.typeRef 0xFFFFFF) =
        t.rowName TableNumber.typeRef 0xFFFFFF := by
  have hread : typeToken.run (Cursor.start [0xC3, 0xFF, 0xFF, 0xFD]) =
      .ok (Token.ofRow TableNumber.typeRef 0xFFFFFF) ⟨[], 4⟩ := rfl
  obtain ⟨coded, table, hcoded, htable, -, -, hnames, hrow⟩ := typeToken_names hread
  have hvalue : compressed.run (Cursor.start [0xC3, 0xFF, 0xFF, 0xFD]) =
      .ok 0x3FFFFFD ⟨[], 4⟩ := rfl
  rw [hvalue] at hcoded
  cases hcoded
  cases htable
  exact ⟨hread, hnames.mpr (by decide), (hrow (by decide)).1⟩

/-- One row further: the token for row `0x1000001` of the referenced types is the one for row
    `1`, so it has the name of another type. -/
theorem typeToken_row_overflows :
    compressed.run (Cursor.start [0xC4, 0x00, 0x00, 0x05]) = .ok 0x4000005 ⟨[], 4⟩ ∧
      typeToken.run (Cursor.start [0xC4, 0x00, 0x00, 0x05]) =
        .ok (Token.ofRow TableNumber.typeRef 1) ⟨[], 4⟩ ∧
      ¬ NamesCoded 0x4000005 (Token.ofRow TableNumber.typeRef 1) ∧
      compressed.run (Cursor.start [0x05]) = .ok 0x05 ⟨[], 1⟩ ∧
      typeToken.run (Cursor.start [0x05]) = .ok (Token.ofRow TableNumber.typeRef 1) ⟨[], 1⟩ := by
  refine ⟨rfl, rfl, ?_, rfl, rfl⟩
  rintro ⟨-, hrow⟩
  exact absurd hrow (by decide)

end Reader

end ILDump
