import ILDump.Proofs.Signature.RoundTrip
import ILDump.Proofs.Text.Joined
import ILDump.Proofs.Text.Numerals
import Mathlib.Data.List.DropRight

/-!
# Different types have different texts

Among plain types, those without custom modifiers, general arrays and function pointers, a
text shows which type it is of. Its last character tells pointers, references, vectors and
generic instances; the others are told by their last word and by how they start. Behind that
the parts of the type stand in the text as they are, except for the arguments of a generic
instance: these are joined by commas, and a comma inside an argument stands in angle brackets,
so each argument ends at the first comma that does not.

Names must be readable for that: a name with a comma, a blank or the mark of a suffix could be
taken for something else.
-/

namespace ILDump

theorem eq_of_map_eq_map {α β : Type} {f : α → β} : ∀ {xs ys : List α},
    (∀ x ∈ xs, ∀ y ∈ ys, f x = f y → x = y) → xs.map f = ys.map f → xs = ys
  | [], [], _, _ => rfl
  | x :: xs, y :: ys, hinj, heq => by
    rw [List.map_cons, List.map_cons] at heq
    obtain ⟨hhead, htail⟩ := List.cons.inj heq
    have hrest := eq_of_map_eq_map (fun x hx y hy =>
      hinj x (List.mem_cons_of_mem _ hx) y (List.mem_cons_of_mem _ hy)) htail
    rw [hinj x List.mem_cons_self y List.mem_cons_self hhead, hrest]

/-! ### Plain types -/

/-- A name that cannot be taken for something else. -/
structure ReadableName (name : String) : Prop where
  ne_empty : name ≠ ""
  marks : ∀ c ∈ name.toList, c ∉ [' ', ',', '<', '>', '*', '&']
  last : name.toList.getLast? ≠ some ']'

/-- The plain types. -/
inductive Shape where
  | primitive
  | named
  | pointer
  | byRef
  | vector
  | typeVariable
  | methodVariable
  | generic
  | pinned
deriving DecidableEq, Repr

namespace TypeSig

variable {ν : Type}

/-- How a plain type is made. -/
def shape? : TypeSig ν → Option Shape
  | primitive _ => some .primitive
  | named _ _ => some .named
  | pointer _ _ => some .pointer
  | byRef _ => some .byRef
  | vector _ _ => some .vector
  | typeVariable _ => some .typeVariable
  | methodVariable _ => some .methodVariable
  | generic _ _ _ => some .generic
  | pinned _ => some .pinned
  | array _ _ _ _ | function _ | modified _ _ => none

/-- Types made of primitive types, names with a property, variables, pointers, references,
    vectors, generic instances and pinned types, without custom modifiers. -/
inductive PlainOver (p : ν → Prop) : TypeSig ν → Prop
  | primitive (q : Primitive) : PlainOver p (.primitive q)
  | named (k : NamedKind) {n : ν} (hn : p n) : PlainOver p (.named k n)
  | pointer {t : TypeSig ν} (ht : PlainOver p t) : PlainOver p (.pointer [] t)
  | byRef {t : TypeSig ν} (ht : PlainOver p t) : PlainOver p (.byRef t)
  | vector {t : TypeSig ν} (ht : PlainOver p t) : PlainOver p (.vector [] t)
  | typeVariable (i : Nat) : PlainOver p (.typeVariable i)
  | methodVariable (i : Nat) : PlainOver p (.methodVariable i)
  | generic (k : NamedKind) {n : ν} (hn : p n) {arguments : List (TypeSig ν)}
      (harguments : ∀ t ∈ arguments, PlainOver p t) : PlainOver p (.generic k n arguments)
  | pinned {t : TypeSig ν} (ht : PlainOver p t) : PlainOver p (.pinned t)

end TypeSig

/-! ### What a text is of -/

namespace Shape

/-- The types whose texts end with a mark of their own. -/
def ofEnding? : Char → Option Shape
  | '*' => some .pointer
  | '&' => some .byRef
  | ']' => some .vector
  | '>' => some .generic
  | _ => none

/-- What stands behind the last blank of a text. -/
def lastWord (cs : List Char) : List Char :=
  cs.rtakeWhile (· ≠ ' ')

/-- What a text without such a mark is of. A name may be the word for pinned types. -/
def ofWords (cs : List Char) : Shape :=
  if lastWord cs = "pinned".toList ∧ cs ≠ "class pinned".toList ∧ cs ≠ "valuetype pinned".toList
  then .pinned
  else if "!!".toList <+: cs then .methodVariable
  else if "!".toList <+: cs then .typeVariable
  else if "class ".toList <+: cs ∨ "valuetype ".toList <+: cs then .named
  else .primitive

/-- How the plain type with a text is made. -/
def ofText (cs : List Char) : Shape :=
  (cs.getLast?.bind ofEnding?).getD (ofWords cs)

theorem ofText_append_mark {c : Char} {shape : Shape} (h : ofEnding? c = some shape)
    (cs : List Char) : ofText (cs ++ [c]) = shape := by
  rw [ofText, List.getLast?_concat, Option.bind_some, h, Option.getD_some]

theorem ofEnding?_eq_none {c : Char} (h : c ∉ ['*', '&', ']', '>']) : ofEnding? c = none := by
  simp only [List.mem_cons, List.not_mem_nil, or_false, not_or] at h
  obtain ⟨hpointer, hbyRef, hvector, hgeneric⟩ := h
  exact ofEnding?.eq_5 c hpointer hbyRef hvector hgeneric

theorem ofText_eq_ofWords {cs : List Char} (h : ∀ c ∈ cs.getLast?, c ∉ ['*', '&', ']', '>']) :
    ofText cs = ofWords cs := by
  rw [ofText]
  cases hlast : cs.getLast? with
  | none => rfl
  | some c => rw [Option.bind_some, ofEnding?_eq_none (h c hlast), Option.getD_none]

theorem lastWord_append {word : List Char} (h : ' ' ∉ word) (front : List Char) :
    lastWord (front ++ ' ' :: word) = word := by
  have hreverse : (front ++ ' ' :: word).reverse = word.reverse ++ ' ' :: front.reverse := by
    simp
  rw [lastWord, List.rtakeWhile, hreverse,
    takeWhile_append_of_head? (by simpa using h) (by simp), List.reverse_reverse]

theorem lastWord_eq_self {cs : List Char} (h : ' ' ∉ cs) : lastWord cs = cs := by
  refine List.rtakeWhile_eq_self_iff.mpr fun c hc => decide_eq_true ?_
  rintro rfl
  exact h hc

theorem ofText_pinned {front : List Char} (hclass : front ≠ "class".toList)
    (hvalueType : front ≠ "valuetype".toList) : ofText (front ++ " pinned".toList) = .pinned := by
  have hlast : ∀ c ∈ (front ++ " pinned".toList).getLast?, c ∉ ['*', '&', ']', '>'] := by
    intro c hc
    rw [List.getLast?_append] at hc
    obtain rfl : 'd' = c := Option.some.inj hc
    decide
  have hword : lastWord (front ++ " pinned".toList) = "pinned".toList :=
    lastWord_append (by decide) front
  have hnot {kind : List Char} (hkind : front ≠ kind) :
      front ++ " pinned".toList ≠ kind ++ " pinned".toList :=
    fun h => hkind (List.append_cancel_right h)
  rw [ofText_eq_ofWords hlast, ofWords]
  exact if_pos ⟨hword, hnot hclass, hnot hvalueType⟩

end Shape

/-! ### Words and numbers -/

namespace ReadableName

variable {name : String} (h : ReadableName name)

include h

theorem not_mem {c : Char} (hc : c ∈ [' ', ',', '<', '>', '*', '&']) : c ∉ name.toList :=
  fun hmem => h.marks c hmem hc

theorem closed : Closed name.toList := by
  refine .of_forall fun c hc hmark => ?_
  simp only [List.mem_cons, List.not_mem_nil, or_false] at hmark
  rcases hmark with rfl | rfl | rfl <;> exact h.not_mem (by decide) hc

theorem getLast?_unmarked : ∀ c ∈ name.toList.getLast?, c ∉ ['*', '&', ']', '>'] := by
  intro c hc hmark
  have hmem := List.mem_of_getLast? hc
  simp only [List.mem_cons, List.not_mem_nil, or_false] at hmark
  rcases hmark with rfl | rfl | rfl | rfl
  · exact h.not_mem (by decide) hmem
  · exact h.not_mem (by decide) hmem
  · exact h.last hc
  · exact h.not_mem (by decide) hmem

end ReadableName

theorem eq_of_toList_toString_eq {m n : Nat} (h : (toString m).toList = (toString n).toList) :
    m = n := by
  rw [Nat.toString_eq_repr, Nat.toString_eq_repr, Nat.toList_repr, Nat.toList_repr] at h
  have hvalue := congrArg (fun digits => Nat.ofDigitChars 10 digits 0) h
  rwa [Nat.ofDigitChars_ten_toDigits, Nat.ofDigitChars_ten_toDigits] at hvalue

theorem closed_toString (n : Nat) : Closed (toString n).toList := by
  refine .of_forall fun c hc hmark => ?_
  have hdigit := isDigit_of_mem_toString hc
  simp only [List.mem_cons, List.not_mem_nil, or_false] at hmark
  rcases hmark with rfl | rfl | rfl <;> cases hdigit

theorem Primitive.closed_text (p : Primitive) : Closed p.text.toList :=
  .of_all (by cases p <;> decide)

theorem NamedKind.closed_text (k : NamedKind) : Closed k.text.toList :=
  .of_all (by cases k <;> decide)

theorem Primitive.text_inj {p q : Primitive} (h : p.text = q.text) : p = q := by
  have hfind (p : Primitive) : all.find? (fun q => q.text = p.text) = some p := by
    cases p <;> decide
  have hp := hfind p
  rw [h, hfind q] at hp
  exact (Option.some.inj hp).symm

theorem NamedKind.isAlpha_of_mem_text {k : NamedKind} : ∀ c ∈ k.text.toList, c.isAlpha :=
  List.all_eq_true.mp (by cases k <;> decide)

namespace Shape

theorem ofText_primitive (q : Primitive) : ofText q.text.toList = .primitive := by
  cases q <;> decide

theorem ofText_named (k : NamedKind) {n : String} (hn : ReadableName n) :
    ofText (k.text.toList ++ ' ' :: n.toList) = .named := by
  have hlast : ∀ c ∈ (k.text.toList ++ ' ' :: n.toList).getLast?, c ∉ ['*', '&', ']', '>'] := by
    obtain ⟨c, cs, hcs⟩ := List.exists_cons_of_ne_nil
      (fun h => hn.ne_empty (String.toList_inj.mp h) : n.toList ≠ [])
    have hend := hn.getLast?_unmarked
    rw [hcs] at hend ⊢
    rwa [List.getLast?_append, List.getLast?_cons_cons, List.getLast?_cons, Option.some_or,
      ← List.getLast?_cons]
  have hword : lastWord (k.text.toList ++ ' ' :: n.toList) = n.toList :=
    lastWord_append (hn.not_mem (by decide)) _
  have hpinned : ¬ (lastWord (k.text.toList ++ ' ' :: n.toList) = "pinned".toList ∧
      k.text.toList ++ ' ' :: n.toList ≠ "class pinned".toList ∧
      k.text.toList ++ ' ' :: n.toList ≠ "valuetype pinned".toList) := by
    rintro ⟨hpinned, hclass, hvalueType⟩
    rw [hword] at hpinned
    rw [hpinned] at hclass hvalueType
    cases k with
    | reference => exact hclass rfl
    | valueType => exact hvalueType rfl
  rw [ofText_eq_ofWords hlast, ofWords, if_neg hpinned]
  cases k <;> simp [NamedKind.text]

/-- The text of a variable is one word that starts with its mark. -/
theorem ofText_variable {cs : List Char} (hcs : ∀ c ∈ cs, c = '!' ∨ c.isDigit) :
    ofText ('!' :: cs) =
      if "!!".toList <+: '!' :: cs then .methodVariable else .typeVariable := by
  have hchar : ∀ c ∈ '!' :: cs, c = '!' ∨ c.isDigit := by
    intro c hc
    exact (List.mem_cons.mp hc).elim .inl (hcs c)
  have hmark {c : Char} (hc : c ≠ '!' ∧ c.isDigit = false) : c ∉ '!' :: cs := by
    intro hmem
    rcases hchar c hmem with h | h
    · exact hc.1 h
    · exact absurd (hc.2.symm.trans h) nofun
  have hlast : ∀ c ∈ ('!' :: cs).getLast?, c ∉ ['*', '&', ']', '>'] := by
    intro c hc hcmark
    have hmem := List.mem_of_getLast? hc
    simp only [List.mem_cons, List.not_mem_nil, or_false] at hcmark
    rcases hcmark with rfl | rfl | rfl | rfl <;> exact hmark (by decide) hmem
  have hword : lastWord ('!' :: cs) = '!' :: cs := lastWord_eq_self (hmark (by decide))
  have hpinned : lastWord ('!' :: cs) ≠ "pinned".toList := by
    rw [hword]
    intro h
    exact absurd (List.cons.inj h).1 (by decide)
  have hmarked : "!".toList <+: '!' :: cs := ⟨cs, rfl⟩
  rw [ofText_eq_ofWords hlast, ofWords, if_neg fun h => hpinned h.1, if_pos hmarked]

theorem ofText_methodVariable (i : Nat) :
    ofText ('!' :: '!' :: (toString i).toList) = .methodVariable := by
  have hcs : ∀ c ∈ '!' :: (toString i).toList, c = '!' ∨ c.isDigit := by
    intro c hc
    exact (List.mem_cons.mp hc).imp_right isDigit_of_mem_toString
  rw [ofText_variable hcs, if_pos]
  exact ⟨_, rfl⟩

theorem ofText_typeVariable (i : Nat) : ofText ('!' :: (toString i).toList) = .typeVariable := by
  have hcs : ∀ c ∈ (toString i).toList, c = '!' ∨ c.isDigit :=
    fun c hc => .inr (isDigit_of_mem_toString hc)
  rw [ofText_variable hcs, if_neg]
  rintro ⟨rest, hrest⟩
  have hmark : '!' ∈ (toString i).toList := by
    rw [← (List.cons.inj hrest).2]
    exact List.mem_cons_self
  exact not_mem_toString rfl hmark

end Shape

/-- The first blank ends the word before a name. -/
theorem NamedKind.append_inj {k l : NamedKind} {xs ys : List Char}
    (h : k.text.toList ++ ' ' :: xs = l.text.toList ++ ' ' :: ys) : k = l ∧ xs = ys := by
  have hblank (k : NamedKind) : ' ' ∉ k.text.toList := by
    cases k <;> decide
  obtain ⟨hkind, hrest⟩ := append_inj_of_head? (hblank k) (hblank l) (by simp) (by simp) h
  refine ⟨?_, (List.cons.inj hrest).2⟩
  cases k <;> cases l
  case reference.reference => rfl
  case valueType.valueType => rfl
  all_goals exact absurd hkind (by decide)

/-! ### Texts of plain types -/

namespace TypeSig

variable {ν : Type} (name : ν → String)

/-- The text of a type, with its names given. -/
def shown (t : TypeSig ν) : List Char :=
  (t.mapNames name).text.toList

theorem texts_mapAll (ts : List (TypeSig ν)) :
    texts (mapAll name ts) = ts.map fun t => (t.mapNames name).text := by
  induction ts with
  | nil => rw [mapAll, texts, List.map_nil]
  | cons t ts ih => rw [mapAll, texts, List.map_cons, ih]

theorem shown_primitive (q : Primitive) : shown name (.primitive q) = q.text.toList := by
  rw [shown, mapNames, text]

theorem shown_named (k : NamedKind) (n : ν) :
    shown name (.named k n) = k.text.toList ++ ' ' :: (name n).toList := by
  rw [shown, mapNames, text]
  simp

theorem shown_pointer (t : TypeSig ν) : shown name (.pointer [] t) = shown name t ++ ['*'] := by
  rw [shown, mapNames, text, List.map_nil, withModifiers, String.toList_append, shown]
  rfl

theorem shown_byRef (t : TypeSig ν) : shown name (.byRef t) = shown name t ++ ['&'] := by
  rw [shown, mapNames, text, String.toList_append, shown]
  rfl

theorem shown_vector (t : TypeSig ν) :
    shown name (.vector [] t) = (shown name t ++ ['[']) ++ [']'] := by
  rw [shown, mapNames, text, List.map_nil, withModifiers, String.toList_append, shown,
    List.append_assoc]
  rfl

theorem shown_typeVariable (i : Nat) :
    shown name (.typeVariable i) = '!' :: (toString i).toList := by
  rw [shown, mapNames, text, String.toList_append]
  rfl

theorem shown_methodVariable (i : Nat) :
    shown name (.methodVariable i) = '!' :: '!' :: (toString i).toList := by
  rw [shown, mapNames, text, String.toList_append]
  rfl

theorem shown_generic (k : NamedKind) (n : ν) (arguments : List (TypeSig ν)) :
    shown name (.generic k n arguments) = (k.text.toList ++ ' ' :: ((name n).toList ++ '<' ::
      (String.intercalate ", " (arguments.map fun t => (t.mapNames name).text)).toList)) ++
        ['>'] := by
  rw [shown, mapNames, text, texts_mapAll]
  simp

theorem shown_pinned (t : TypeSig ν) :
    shown name (.pinned t) = shown name t ++ " pinned".toList := by
  rw [shown, mapNames, text, String.toList_append, shown]

end TypeSig

namespace TypeSig.PlainOver

variable {ν : Type} {p : ν → Prop} {name : ν → String} (hnames : ∀ n, p n → ReadableName (name n))
  {t u : TypeSig ν}

include hnames in
theorem closed (h : t.PlainOver p) : Closed (t.shown name) := by
  have hmark {c : Char} (hc : c ∉ ['<', '>', ',']) : Closed [c] := .of_forall (by simpa using hc)
  induction h with
  | primitive q =>
    rw [shown_primitive]
    exact q.closed_text
  | named k hn =>
    rw [shown_named]
    exact k.closed_text.append ((hmark (by decide)).append (hnames _ hn).closed)
  | pointer _ ih =>
    rw [shown_pointer]
    exact ih.append (hmark (by decide))
  | byRef _ ih =>
    rw [shown_byRef]
    exact ih.append (hmark (by decide))
  | vector _ ih =>
    rw [shown_vector]
    exact (ih.append (hmark (by decide))).append (hmark (by decide))
  | typeVariable i =>
    rw [shown_typeVariable]
    exact (hmark (by decide)).append (closed_toString i)
  | methodVariable i =>
    rw [shown_methodVariable]
    exact (hmark (by decide)).append ((hmark (by decide)).append (closed_toString i))
  | @generic k n hn arguments _ ih =>
    have hinside := closedInside_intercalate (List.forall_mem_map.mpr ih)
    rw [shown_generic]
    simp only [List.append_assoc, List.cons_append]
    exact k.closed_text.append ((hmark (by decide)).append
      ((hnames n hn).closed.append hinside.brackets))
  | pinned _ ih =>
    rw [shown_pinned]
    exact ih.append (.of_all (by decide))

/-- A text that could be the word before a named type. -/
theorem shown_ne_kind (h : t.PlainOver p) (k : NamedKind) : t.shown name ≠ k.text.toList := by
  have hmark {c : Char} (hc : c.isAlpha = false) (hmem : c ∈ t.shown name) :
      t.shown name ≠ k.text.toList := by
    intro heq
    rw [heq] at hmem
    rw [k.isAlpha_of_mem_text c hmem] at hc
    cases hc
  cases h with
  | primitive q =>
    rw [shown_primitive]
    cases k <;> cases q <;> decide
  | named k' hn => exact hmark (c := ' ') rfl (by simp [shown_named])
  | pointer _ => exact hmark (c := '*') rfl (by simp [shown_pointer])
  | byRef _ => exact hmark (c := '&') rfl (by simp [shown_byRef])
  | vector _ => exact hmark (c := ']') rfl (by simp [shown_vector])
  | typeVariable i => exact hmark (c := '!') rfl (by simp [shown_typeVariable])
  | methodVariable i => exact hmark (c := '!') rfl (by simp [shown_methodVariable])
  | generic k' hn _ => exact hmark (c := '>') rfl (by simp [shown_generic])
  | pinned _ => exact hmark (c := ' ') rfl (by simp [shown_pinned])

include hnames in
/-- A text shows how its type is made. -/
theorem shape?_eq (h : t.PlainOver p) : t.shape? = some (Shape.ofText (t.shown name)) := by
  cases h with
  | primitive q => rw [shown_primitive, Shape.ofText_primitive, shape?]
  | named k hn => rw [shown_named, Shape.ofText_named k (hnames _ hn), shape?]
  | pointer _ => rw [shown_pointer, Shape.ofText_append_mark rfl, shape?]
  | byRef _ => rw [shown_byRef, Shape.ofText_append_mark rfl, shape?]
  | vector _ => rw [shown_vector, Shape.ofText_append_mark rfl, shape?]
  | typeVariable i => rw [shown_typeVariable, Shape.ofText_typeVariable, shape?]
  | methodVariable i => rw [shown_methodVariable, Shape.ofText_methodVariable, shape?]
  | generic k hn _ => rw [shown_generic, Shape.ofText_append_mark rfl, shape?]
  | pinned ht =>
    rw [shown_pinned, Shape.ofText_pinned (ht.shown_ne_kind .reference)
      (ht.shown_ne_kind .valueType), shape?]

theorem shown_ne_nil (h : t.PlainOver p) : t.shown name ≠ [] := by
  cases h with
  | primitive q =>
    rw [shown_primitive]
    cases q <;> decide
  | named k hn => simp [shown_named]
  | pointer _ => simp [shown_pointer]
  | byRef _ => simp [shown_byRef]
  | vector _ => simp [shown_vector]
  | typeVariable i => simp [shown_typeVariable]
  | methodVariable i => simp [shown_methodVariable]
  | generic k hn _ => simp [shown_generic]
  | pinned _ => simp [shown_pinned]

include hnames

theorem shape?_eq_of_shown_eq (ht : t.PlainOver p) (hu : u.PlainOver p)
    (heq : t.shown name = u.shown name) : t.shape? = u.shape? := by
  rw [ht.shape?_eq hnames, hu.shape?_eq hnames, heq]

/-- What can be an argument of a generic instance. -/
theorem argument {arguments : List (TypeSig ν)} (h : ∀ t ∈ arguments, t.PlainOver p) :
    ∀ s ∈ arguments.map fun t => (t.mapNames name).text, s ≠ "" ∧ Closed s.toList := by
  refine List.forall_mem_map.mpr fun t ht => ⟨?_, (h t ht).closed hnames⟩
  intro hempty
  have hnil : t.shown name = [] := by
    rw [shown, hempty]
    rfl
  exact (h t ht).shown_ne_nil hnil

/-- By induction on the one type; the other one is made in the same way, as its text shows. -/
theorem eq_of_shown_eq (hinj : ∀ m n, p m → p n → name m = name n → m = n) (ht : t.PlainOver p)
    (hu : u.PlainOver p) (heq : t.shown name = u.shown name) : t = u := by
  have hshape := shape?_eq_of_shown_eq hnames ht hu heq
  induction ht generalizing u with
  | primitive q =>
    cases hu with
    | primitive q' =>
      rw [shown_primitive, shown_primitive] at heq
      rw [Primitive.text_inj (String.toList_inj.mp heq)]
    | _ => cases hshape
  | named k hn =>
    cases hu with
    | named k' hn' =>
      rw [shown_named, shown_named] at heq
      obtain ⟨rfl, hname⟩ := NamedKind.append_inj heq
      rw [hinj _ _ hn hn' (String.toList_inj.mp hname)]
    | _ => cases hshape
  | pointer ht ih =>
    cases hu with
    | pointer hu =>
      rw [shown_pointer, shown_pointer] at heq
      have htarget := List.append_cancel_right heq
      rw [ih hu htarget (shape?_eq_of_shown_eq hnames ht hu htarget)]
    | _ => cases hshape
  | byRef ht ih =>
    cases hu with
    | byRef hu =>
      rw [shown_byRef, shown_byRef] at heq
      have htarget := List.append_cancel_right heq
      rw [ih hu htarget (shape?_eq_of_shown_eq hnames ht hu htarget)]
    | _ => cases hshape
  | vector ht ih =>
    cases hu with
    | vector hu =>
      rw [shown_vector, shown_vector] at heq
      have helement := List.append_cancel_right (List.append_cancel_right heq)
      rw [ih hu helement (shape?_eq_of_shown_eq hnames ht hu helement)]
    | _ => cases hshape
  | typeVariable i =>
    cases hu with
    | typeVariable j =>
      rw [shown_typeVariable, shown_typeVariable] at heq
      rw [eq_of_toList_toString_eq (List.cons.inj heq).2]
    | _ => cases hshape
  | methodVariable i =>
    cases hu with
    | methodVariable j =>
      rw [shown_methodVariable, shown_methodVariable] at heq
      rw [eq_of_toList_toString_eq (List.cons.inj (List.cons.inj heq).2).2]
    | _ => cases hshape
  | generic k hn harguments ih =>
    cases hu with
    | generic k' hn' harguments' =>
      rw [shown_generic, shown_generic] at heq
      obtain ⟨rfl, hbehind⟩ := NamedKind.append_inj (List.append_cancel_right heq)
      have hmark {n : ν} (hn : p n) : '<' ∉ (name n).toList := (hnames n hn).not_mem (by decide)
      obtain ⟨hname, hjoined⟩ :=
        append_inj_of_head? (hmark hn) (hmark hn') (by simp) (by simp) hbehind
      have htexts := intercalate_inj endsAtComma_closed (argument hnames harguments)
        (argument hnames harguments') (String.toList_inj.mp (List.cons.inj hjoined).2)
      have hsame := eq_of_map_eq_map (fun t ht u hu htext => by
        have hshown : t.shown name = u.shown name := congrArg String.toList htext
        exact ih t ht (harguments' u hu) hshown
          (shape?_eq_of_shown_eq hnames (harguments t ht) (harguments' u hu) hshown)) htexts
      rw [hinj _ _ hn hn' (String.toList_inj.mp hname), hsame]
    | _ => cases hshape
  | pinned ht ih =>
    cases hu with
    | pinned hu =>
      rw [shown_pinned, shown_pinned] at heq
      have htype := List.append_cancel_right heq
      rw [ih hu htype (shape?_eq_of_shown_eq hnames ht hu htype)]
    | _ => cases hshape

end TypeSig.PlainOver

/-! ### Encoded types -/

/-- A general array of rank one without sizes and bounds has the text of a vector, so general
    arrays do not belong to the plain types. -/
theorem TypeSig.text_array_rank_one (t : TypeSig String) :
    (TypeSig.array t 1 [] []).text = (TypeSig.vector [] t).text := by
  rw [text, text, withModifiers, String.append_assoc, String.append_assoc]
  rfl

namespace Reader

variable {resolve : Token → String}

theorem decode_type_text {t : TypeSig Token} (h : t.Encodable) :
    (TypeSig.text <$> type (total resolve)).decode (Encoding.type t) =
      .ok (t.mapNames resolve).text := by
  rw [decode, ((reads_type resolve h).map TypeSig.text).run_start]

/-- **Different types never share a text.** With names that are readable and different for
    different tokens, plain types whose encodings are read to one text are the same. -/
theorem decoded_texts_eq_iff (resolve : Token → String)
    (hnames : ∀ token, token.IsTypeToken → ReadableName (resolve token))
    (hinj : ∀ a b, a.IsTypeToken → b.IsTypeToken → resolve a = resolve b → a = b)
    {t u : TypeSig Token} (ht : t.Encodable) (hu : u.Encodable)
    (htPlain : t.PlainOver Token.IsTypeToken) (huPlain : u.PlainOver Token.IsTypeToken) :
    (∃ text, (TypeSig.text <$> type (total resolve)).decode (Encoding.type t) = .ok text ∧
      (TypeSig.text <$> type (total resolve)).decode (Encoding.type u) = .ok text) ↔ t = u := by
  rw [decode_type_text ht, decode_type_text hu]
  constructor
  · rintro ⟨text, htText, huText⟩
    have heq : (t.mapNames resolve).text = (u.mapNames resolve).text :=
      Except.ok.inj (htText.trans huText.symm)
    exact htPlain.eq_of_shown_eq hnames hinj huPlain (congrArg String.toList heq)
  · rintro rfl
    exact ⟨_, rfl, rfl⟩

/-- A name for each token: a letter and the number of the token. -/
def numbered (token : Token) : String :=
  "T" ++ toString token.value

theorem mem_numbered {token : Token} {c : Char} (h : c ∈ (numbered token).toList) :
    c = 'T' ∨ c.isDigit := by
  rw [numbered, String.toList_append] at h
  rcases List.mem_append.mp h with h | h
  · exact .inl (List.mem_singleton.mp h)
  · exact .inr (isDigit_of_mem_toString h)

theorem readableName_numbered (token : Token) : ReadableName (numbered token) where
  ne_empty := by simp [numbered]
  marks := by
    intro c hc hmark
    simp only [List.mem_cons, List.not_mem_nil, or_false] at hmark
    rcases hmark with rfl | rfl | rfl | rfl | rfl | rfl <;>
      exact absurd (mem_numbered hc) (by decide)
  last hlast := absurd (mem_numbered (List.mem_of_getLast? hlast)) (by decide)

theorem numbered_inj {a b : Token} (h : numbered a = numbered b) : a = b := by
  have hvalue := (String.append_right_inj "T").mp h
  rw [Token.mk.injEq]
  exact eq_of_toList_toString_eq (congrArg String.toList hvalue)

/-- Generic instances that differ only in where the inner one ends. -/
theorem decoded_texts_eq_iff_nested :
    let outer : Token := ⟨0x02000001⟩
    let inner : Token := ⟨0x02000002⟩
    let int32 : TypeSig Token := .primitive .int32
    let two : TypeSig Token := .generic .reference outer [.generic .reference inner [int32, int32]]
    let one : TypeSig Token := .generic .reference outer [.generic .reference inner [int32], int32]
    ¬ ∃ text, (TypeSig.text <$> type (total numbered)).decode (Encoding.type two) = .ok text ∧
      (TypeSig.text <$> type (total numbered)).decode (Encoding.type one) = .ok text := by
  intro outer inner int32 two one
  have hne : two ≠ one := by simp [two, one]
  have hint32 : int32.PlainOver Token.IsTypeToken := .primitive .int32
  have houter : outer.IsTypeToken := by decide
  have hinner : inner.IsTypeToken := by decide
  have htwo : two.PlainOver Token.IsTypeToken :=
    .generic _ houter (by simpa using .generic _ hinner (by simpa using hint32))
  have hone : one.PlainOver Token.IsTypeToken :=
    .generic _ houter (by simpa using ⟨.generic _ hinner (by simpa using hint32), hint32⟩)
  refine fun h => hne ((decoded_texts_eq_iff numbered (fun token _ => readableName_numbered token)
    (fun a b _ _ => numbered_inj) ?_ ?_ htwo hone).mp h)
  · simp [two, int32, TypeSig.Encodable, TypeSig.EncodableAll, houter, hinner, Encoding.limit]
  · simp [one, int32, TypeSig.Encodable, TypeSig.EncodableAll, houter, hinner, Encoding.limit]

end Reader

end ILDump
