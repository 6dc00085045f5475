import ILDump.Listing.Writer
import ILDump.Proofs.Text.Numerals

/-!
# Reading rows of bytes back

Bytes are cut into rows of one width, only the last of which may be shorter, and a row shows each
of its bytes as two capital digits with a blank behind. In the block of a directive the rows stand
below each other: the directive with its parenthesis and the blanks of the other lines are of one
width. The closing parenthesis is put to the last row, which is the first one if there is no
other. So whatever white space is between the lines, the text between the parentheses consists of
the digits of the bytes and of white space.
-/

namespace ILDump

namespace Digits

/-- The byte of two capital digits. -/
def byte? (high low : Char) : Option UInt8 := do
  let h ← capitals.idxOf? high
  let l ← capitals.idxOf? low
  return UInt8.ofNat (16 * h + l)

theorem idxOf?_digit {d : Nat} (h : d < 16) : capitals.idxOf? (digit .upper d) = some d := by
  revert d
  decide

theorem not_isWhitespace_digit {d : Nat} (h : d < 16) :
    (digit .upper d).isWhitespace = false := by
  revert d
  decide

theorem byte?_digits (b : UInt8) :
    byte? (digit .upper (b.toNat / 16)) (digit .upper (b.toNat % 16)) = some b := by
  have hb := b.toNat_lt
  have hnumber : 16 * (b.toNat / 16) + b.toNat % 16 = b.toNat := Nat.div_add_mod _ _
  rw [byte?, idxOf?_digit (by omega), idxOf?_digit (by omega)]
  change some (UInt8.ofNat (16 * (b.toNat / 16) + b.toNat % 16)) = some b
  rw [hnumber, UInt8.ofNat_toNat]

theorem toList_hexByte (b : UInt8) :
    (hexByte .upper b).toList =
      [digit .upper (b.toNat / 16), digit .upper (b.toNat % 16)] := by
  have hb := b.toNat_lt
  have hhigh : b.toNat / 16 % 16 = b.toNat / 16 := by omega
  simp [hexByte, hexWord, hhigh]

end Digits

namespace ByteRows

/-! ### Reading -/

/-- The bytes of a row: two capital digits and a blank for each. -/
def readRow? : List Char → Option Bytes
  | [] => some []
  | high :: low :: ' ' :: cs => do
    let b ← Digits.byte? high low
    let bs ← readRow? cs
    return b :: bs
  | _ => none

/-- The bytes of a text of capital digits, two for each, with white space anywhere between
    them. -/
def readHex? : List Char → Option Bytes
  | [] => some []
  | [c] => if c.isWhitespace then some [] else none
  | c :: d :: cs =>
    if c.isWhitespace then readHex? (d :: cs)
    else do
      let b ← Digits.byte? c d
      let bs ← readHex? cs
      return b :: bs

theorem toList_row_cons (b : UInt8) (bytes : Bytes) :
    (row (b :: bytes)).toList =
      Digits.digit .upper (b.toNat / 16) :: Digits.digit .upper (b.toNat % 16) :: ' ' ::
        (row bytes).toList := by
  rw [row, List.map_cons, String.join_cons, String.toList_append, String.toList_append,
    Digits.toList_hexByte]
  rfl

theorem readRow?_row (bytes : Bytes) : readRow? (row bytes).toList = some bytes := by
  induction bytes with
  | nil => rfl
  | cons b bytes ih =>
    rw [toList_row_cons, readRow?, Digits.byte?_digits, ih]
    rfl

theorem readHex?_white {white : List Char} (h : ∀ c ∈ white, c.isWhitespace) (cs : List Char) :
    readHex? (white ++ cs) = readHex? cs := by
  induction white with
  | nil => rfl
  | cons c white ih =>
    have hc := h c List.mem_cons_self
    rw [← ih fun d hd => h d (List.mem_cons_of_mem _ hd), List.cons_append]
    cases white ++ cs with
    | nil => exact if_pos hc
    | cons d rest => exact if_pos hc

theorem readHex?_row (bytes : Bytes) (cs : List Char) :
    readHex? ((row bytes).toList ++ cs) = (readHex? cs).map (bytes ++ ·) := by
  induction bytes with
  | nil =>
    rw [show (row []).toList = [] from rfl, List.nil_append]
    simp
  | cons b bytes ih =>
    have hb := b.toNat_lt
    have hdigit := Digits.not_isWhitespace_digit (d := b.toNat / 16) (by omega)
    have hwhite : ∀ c ∈ [' '], c.isWhitespace := List.forall_mem_singleton.mpr (by decide)
    have hblank : readHex? (' ' :: ((row bytes).toList ++ cs)) =
        readHex? ((row bytes).toList ++ cs) := readHex?_white hwhite _
    rw [toList_row_cons, List.cons_append, List.cons_append, List.cons_append, readHex?, hdigit,
      Digits.byte?_digits, hblank, ih]
    cases readHex? cs <;> rfl

/-! ### Cutting -/

/-- Pieces of one size, the last one possibly shorter but not empty. -/
structure CutInto {α : Type} (size : Nat) (xs : List α) (pieces : List (List α)) : Prop where
  length_eq : pieces.length = (xs.length + size - 1) / size
  flatten_eq : pieces.flatten = xs
  full : ∀ piece ∈ pieces.dropLast, piece.length = size
  last : ∀ piece ∈ pieces.getLast?, 1 ≤ piece.length ∧ piece.length ≤ size

theorem pieces_nil {α : Type} (size : Nat) : pieces size ([] : List α) = [] := by
  rw [pieces]
  rfl

theorem CutInto.nil {α : Type} {size : Nat} (hsize : 1 ≤ size) :
    CutInto size ([] : List α) [] where
  length_eq := by
    rw [List.length_nil, List.length_nil, Nat.div_eq_of_lt (by omega)]
  flatten_eq := rfl
  full := by simp
  last := by simp

theorem CutInto.one {α : Type} {size : Nat} {xs : List α} (h : xs ≠ [])
    (hshort : xs.length ≤ size) : CutInto size xs [xs] where
  length_eq := by
    have hlength := List.length_pos_iff.mpr h
    rw [show xs.length + size - 1 = (xs.length - 1) + size by omega,
      Nat.add_div_right _ (by omega), Nat.div_eq_of_lt (by omega)]
    rfl
  flatten_eq := by simp
  full := by simp
  last := by
    intro piece hpiece
    obtain rfl := Option.some.inj hpiece
    exact ⟨List.length_pos_iff.mpr h, hshort⟩

theorem CutInto.cons {α : Type} {size : Nat} {first rest : List α} {pieces : List (List α)}
    (hsize : 1 ≤ size) (hfirst : first.length = size) (hrest : rest ≠ [])
    (h : CutInto size rest pieces) : CutInto size (first ++ rest) (first :: pieces) := by
  have hne : pieces ≠ [] := by
    rintro rfl
    exact hrest h.flatten_eq.symm
  refine ⟨?_, ?_, ?_, ?_⟩
  · have hlength := List.length_pos_iff.mpr hrest
    rw [List.length_cons, h.length_eq, List.length_append, hfirst,
      show size + rest.length + size - 1 = (rest.length + size - 1) + size by omega,
      Nat.add_div_right _ hsize]
  · rw [List.flatten_cons, h.flatten_eq]
  · intro piece hpiece
    rw [List.dropLast_cons_of_ne_nil hne, List.mem_cons] at hpiece
    rcases hpiece with rfl | hpiece
    · exact hfirst
    · exact h.full piece hpiece
  · intro piece hpiece
    rw [List.getLast?_cons_of_ne_nil hne] at hpiece
    exact h.last piece hpiece

/-- By induction along the cuts: something is left over only if the piece is full. -/
theorem cutInto_pieces {α : Type} {size : Nat} (hsize : 1 ≤ size) (xs : List α) :
    CutInto size xs (pieces size xs) := by
  have hmax : max size 1 = size := Nat.max_eq_left hsize
  fun_induction pieces size xs with
  | case1 xs hxs =>
    obtain rfl := List.isEmpty_iff.mp hxs
    exact .nil hsize
  | case2 xs hxs ih =>
    rw [hmax] at ih ⊢
    by_cases hrest : xs.drop size = []
    · have hshort := List.drop_eq_nil_iff.mp hrest
      rw [hrest, pieces_nil, List.take_of_length_le hshort]
      exact .one (by simpa using hxs) hshort
    · have hlong : size < xs.length := by
        simpa [List.drop_eq_nil_iff] using hrest
      have hcut := CutInto.cons hsize (List.length_take_of_le (Nat.le_of_lt hlong)) hrest ih
      rwa [List.take_append_drop] at hcut

/-! ### Rows -/

/-- Rows in which bytes stand in order, so many in each, as two capital digits and a blank. -/
structure ShownIn (perLine : Nat) (data : Bytes) (rows : List String) : Prop where
  length_eq : rows.length = (data.length + perLine - 1) / perLine
  exists_pieces : ∃ pieces, rows.mapM (fun text => readRow? text.toList) = some pieces ∧
    CutInto perLine data pieces

theorem mapM_readRow? (pieces : List Bytes) :
    (pieces.map row).mapM (fun text => readRow? text.toList) = some pieces := by
  induction pieces with
  | nil => rfl
  | cons piece pieces ih => simp [List.mapM_cons, readRow?_row, ih]

theorem rows_eq {perLine : Nat} {data : Bytes} (h : data ≠ []) :
    rows perLine data = (pieces perLine data).map row := by
  rw [rows, if_neg (by simpa using h)]

theorem shownIn_rows {perLine : Nat} {data : Bytes} (hwidth : 1 ≤ perLine) (h : data ≠ []) :
    ShownIn perLine data (rows perLine data) where
  length_eq := by
    rw [rows_eq h, List.length_map, (cutInto_pieces hwidth data).length_eq]
  exists_pieces := by
    rw [rows_eq h]
    exact ⟨_, mapM_readRow? _, cutInto_pieces hwidth data⟩

/-- White space between rows is no part of the bytes. -/
theorem readHex?_intercalate {separator : String} (h : ∀ c ∈ separator.toList, c.isWhitespace)
    (pieces : List Bytes) :
    readHex? (String.intercalate separator (pieces.map row)).toList = some pieces.flatten := by
  induction pieces with
  | nil => rfl
  | cons piece pieces ih =>
    cases pieces with
    | nil => simpa [readHex?] using readHex?_row piece []
    | cons piece' pieces =>
      rw [List.map_cons, List.map_cons, String.intercalate_cons_cons, String.toList_append,
        String.toList_append, List.append_assoc, readHex?_row, readHex?_white h,
        ← List.map_cons, ih]
      rfl

end ByteRows

/-! ### Blocks -/

namespace Listing

open ByteRows (ShownIn readHex?)

/-- The rows of a block with the last one closed. -/
theorem byteLines_eq {directive : String} {data : Bytes} {first : String} {others : List String}
    {before : List String} {last : String} (hrows : ByteRows.rows 16 data = before ++ [last])
    (hclosed : before ++ [last ++ ")"] = first :: others) :
    byteLines directive data = (directive ++ " = (" ++ first) ::
      others.map (String.ofList (List.replicate (directive.length + 4) ' ') ++ ·) := by
  unfold byteLines
  extract_lets indentation close
  have hclose : close (ByteRows.rows 16 data) = first :: others := by
    rw [hrows, ← hclosed]
    simp [close]
  rw [hclose]

/-- What stands in front of a row: the directive, and blanks below it. -/
def margin (directive : String) : Nat → String
  | 0 => directive ++ " = ("
  | _ + 1 => String.ofList (List.replicate (directive.length + 4) ' ')

/-- All rows start in one column. -/
theorem length_margin (directive : String) (i : Nat) :
    (margin directive i).length = directive.length + 4 := by
  cases i with
  | zero => rw [margin, String.length_append]; rfl
  | succ i => rw [margin, String.length_ofList, List.length_replicate]

/-- How the lines of a directive show its bytes. -/
structure ByteBlock (directive : String) (data : Bytes) (lines : List String) : Prop where
  /-- Each line has a row in the column of the first one; the last row, and no other, has a
      parenthesis behind it. -/
  exists_rows : ∃ rows, ShownIn 16 data rows ∧ lines = rows.mapIdx fun i row =>
    margin directive i ++ row ++ if i + 1 = rows.length then ")" else ""
  column : ∀ i, (margin directive i).length = (margin directive 0).length
  /-- With any white space between the lines, the bytes are what the parentheses hold. -/
  read : ∀ separator : String, (∀ c ∈ separator.toList, c.isWhitespace) →
    ∃ inner, String.intercalate separator lines = directive ++ " = (" ++ inner ++ ")" ∧
      readHex? inner.toList = some data

theorem getElem_closed {before : List String} {last : String} {i : Nat}
    (hclosed : i < (before ++ [last ++ ")"]).length) (hrow : i < (before ++ [last]).length) :
    (before ++ [last ++ ")"])[i] =
      (before ++ [last])[i] ++ if i + 1 = (before ++ [last]).length then ")" else "" := by
  rw [List.length_append, List.length_singleton] at hrow
  by_cases hi : i < before.length
  · rw [List.getElem_append_left hi, List.getElem_append_left hi, if_neg (by simp; omega),
      String.append_empty]
  · obtain rfl : i = before.length := by omega
    simp

theorem rows_ne_nil (perLine : Nat) (data : Bytes) : ByteRows.rows perLine data ≠ [] := by
  unfold ByteRows.rows
  split
  · exact List.cons_ne_nil _ _
  · next hdata =>
    rw [ByteRows.pieces, if_neg hdata]
    exact List.cons_ne_nil _ _

/-- There is always a first row, and a last one, which may be the same. -/
theorem exists_byteLines_eq (directive : String) (data : Bytes) :
    ∃ before last first others, ByteRows.rows 16 data = before ++ [last] ∧
      before ++ [last ++ ")"] = first :: others ∧
      byteLines directive data = (directive ++ " = (" ++ first) ::
        others.map (String.ofList (List.replicate (directive.length + 4) ' ') ++ ·) := by
  obtain ⟨before, last, hrows⟩ :=
    (List.eq_nil_or_concat' _).resolve_left (rows_ne_nil 16 data)
  obtain ⟨first, others, hclosed⟩ := List.exists_cons_of_ne_nil
    (List.append_ne_nil_of_right_ne_nil before (List.cons_ne_nil (last ++ ")") []))
  exact ⟨before, last, first, others, hrows, hclosed, byteLines_eq hrows hclosed⟩

theorem byteLines_eq_mapIdx (directive : String) (data : Bytes) :
    byteLines directive data = (ByteRows.rows 16 data).mapIdx fun i row =>
      margin directive i ++ row ++ if i + 1 = (ByteRows.rows 16 data).length then ")" else "" := by
  obtain ⟨before, last, first, others, hrows, hclosed, hlines⟩ := exists_byteLines_eq directive data
  have hlength : (first :: others).length = (before ++ [last]).length := by
    rw [← hclosed, List.length_append, List.length_append]
    rfl
  have hget : ∀ i (hi : i < (first :: others).length) (hrow : i < (before ++ [last]).length),
      (first :: others)[i] = (before ++ [last])[i] ++
        if i + 1 = (before ++ [last]).length then ")" else "" := by
    intro i hi hrow
    simp only [← hclosed]
    exact getElem_closed _ hrow
  rw [hlines, hrows]
  refine List.ext_getElem ?_ fun i hi hrow => ?_
  · rw [List.length_cons, List.length_map, List.length_mapIdx, ← hlength, List.length_cons]
  · rw [List.length_mapIdx] at hrow
    have hrow' := hget i (hlength ▸ hrow) hrow
    rw [List.getElem_mapIdx]
    conv_rhs => rw [String.append_assoc, ← hrow']
    cases i with
    | zero => rfl
    | succ i => simp [margin]

/-- The front of the first line comes before the rest; that of the others is white space between
    rows. -/
theorem intercalate_margins (separator front margin first : String) (others : List String) :
    String.intercalate separator ((front ++ first) :: others.map (margin ++ ·)) =
      front ++ String.intercalate (separator ++ margin) (first :: others) := by
  induction others generalizing front first with
  | nil => rfl
  | cons other others ih =>
    rw [List.map_cons, String.intercalate_cons_cons, ih, String.intercalate_cons_cons]
    simp only [String.append_assoc]

theorem intercalate_closed (separator : String) (before : List String) (last closing : String) :
    String.intercalate separator (before ++ [last ++ closing]) =
      String.intercalate separator (before ++ [last]) ++ closing := by
  induction before with
  | nil => rfl
  | cons row before ih =>
    cases before with
    | nil => simp [String.intercalate_cons_cons, String.append_assoc]
    | cons row' before =>
      have hcons (text : String) : String.intercalate separator (row :: row' :: before ++ [text]) =
          row ++ separator ++ String.intercalate separator (row' :: before ++ [text]) :=
        String.intercalate_cons_cons
      rw [hcons, hcons, ih, String.append_assoc, String.append_assoc, String.append_assoc]

theorem intercalate_byteLines (separator directive : String) (data : Bytes) :
    String.intercalate separator (byteLines directive data) =
      directive ++ " = (" ++ String.intercalate
        (separator ++ String.ofList (List.replicate (directive.length + 4) ' '))
        (ByteRows.rows 16 data) ++ ")" := by
  obtain ⟨before, last, first, others, hrows, hclosed, hlines⟩ := exists_byteLines_eq directive data
  rw [hlines, intercalate_margins, ← hclosed, intercalate_closed, hrows, String.append_assoc]
  simp only [String.append_assoc]

theorem byteBlock_byteLines (directive : String) {data : Bytes} (h : data ≠ []) :
    ByteBlock directive data (byteLines directive data) where
  exists_rows := ⟨_, ByteRows.shownIn_rows (by decide) h, byteLines_eq_mapIdx directive data⟩
  column i := (length_margin directive i).trans (length_margin directive 0).symm
  read := by
    intro separator hwhite
    refine ⟨_, intercalate_byteLines separator directive data, ?_⟩
    rw [ByteRows.rows_eq h, ByteRows.readHex?_intercalate,
      (ByteRows.cutInto_pieces (by decide) data).flatten_eq]
    intro c hc
    rw [String.toList_append, List.mem_append, String.toList_ofList] at hc
    rcases hc with hc | hc
    · exact hwhite c hc
    · rw [List.eq_of_mem_replicate hc]
      decide

/-- **Bytes read back.** Bytes are shown in as many rows as a width asks for, all full but the
    last one; and the lines of a directive have the rows below each other, with the bytes between
    the parentheses. -/
theorem bytes_read_back {data : Bytes} (h : data ≠ []) :
    (∀ perLine : Nat, 1 ≤ perLine →
      ∃ rows, ByteRows.rowsOfWidth? perLine data = some rows ∧ ShownIn perLine data rows) ∧
    ∀ directive, ∃ lines, byteDirective directive data = lines.map .line ∧
      ByteBlock directive data lines := by
  constructor
  · intro perLine hwidth
    refine ⟨ByteRows.rows perLine data, ?_, ByteRows.shownIn_rows hwidth h⟩
    rw [ByteRows.rowsOfWidth?, if_pos (.inr (by omega)), Int.toNat_natCast]
  · intro directive
    exact ⟨_, rfl, byteBlock_byteLines directive h⟩

/-- Eighteen bytes are five rows of four and two lines of a directive. -/
theorem bytes_read_back_eighteen :
    (List.range 18).map UInt8.ofNat ≠ [] ∧
      (∃ rows, ByteRows.rowsOfWidth? 4 ((List.range 18).map UInt8.ofNat) = some rows ∧
        rows.length = 5) ∧
      ∃ lines, byteDirective ".hash" ((List.range 18).map UInt8.ofNat) = lines.map .line ∧
        ByteBlock ".hash" ((List.range 18).map UInt8.ofNat) lines ∧ lines.length = 2 := by
  have hne : (List.range 18).map UInt8.ofNat ≠ [] := by decide
  obtain ⟨hrows, hlines⟩ := bytes_read_back hne
  obtain ⟨rows, hwidth, hshown⟩ := hrows 4 (by decide)
  obtain ⟨lines, hsteps, hblock⟩ := hlines ".hash"
  obtain ⟨shown, hsixteen, hmap⟩ := hblock.exists_rows
  refine ⟨hne, ⟨rows, hwidth, hshown.length_eq⟩, lines, hsteps, hblock, ?_⟩
  rw [hmap, List.length_mapIdx, hsixteen.length_eq]
  rfl

/-- One row is the first and the last. -/
example : byteLines ".hash" [0x0A, 0xFF] = [".hash = (0A FF )"] := by decide +kernel

end Listing

end ILDump
