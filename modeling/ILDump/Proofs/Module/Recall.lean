import ILDump.Module.Recall
import ILDump.Proofs.Module.Chains
import ILDump.Proofs.Signature.Asking

/-!
# Remembered names are right

A name is kept together with those of all types around it, and from then on it is taken from
there, in every text that names the type. So one wrong entry would spoil all later texts. Each
entry is what the name would be if it were made anew, and each text comes out as it does with
nothing remembered. A name without end is never kept, so it has none however often it is asked
for.
-/

namespace ILDump.Recall

open Tables (Chain)

variable {t : Tables}

/-! ### One name -/

/-- Each name that is known is the one that would be made. -/
def Right (t : Tables) (known : KnownNames) : Prop :=
  ∀ p ∈ known, t.typeDefName p.1 = .ok p.2

theorem right_nil (t : Tables) : Right t [] := fun _ h => absurd h List.not_mem_nil

theorem Right.cons {known : KnownNames} (h : Right t known) {n : Nat} {name : String}
    (hname : t.typeDefName n = .ok name) : Right t ((n, name) :: known) := by
  intro p hp
  rcases List.mem_cons.mp hp with rfl | hp
  · exact hname
  · exact h p hp

theorem Right.of_lookup {known : KnownNames} (h : Right t known) {n : Nat} {name : String}
    (hname : known.lookup n = some name) : t.typeDefName n = .ok name := by
  induction known with
  | nil => cases hname
  | cons p known ih =>
    rw [List.lookup_cons] at hname
    by_cases hp : n = p.1
    · simp [hp] at hname
      rw [← hname, hp]
      exact h p List.mem_cons_self
    · have hne : (n == p.1) = false := by simpa using hp
      rw [hne] at hname
      exact ih (fun q hq => h q (List.mem_cons_of_mem _ hq)) hname

theorem typeDefNameWithin_known {known : KnownNames} {n : Nat} {name : String}
    (h : known.lookup n = some name) (depth : Nat) :
    typeDefNameWithin t depth n known = .ok name known := by
  unfold typeDefNameWithin
  rw [get_bind, h]
  rfl

theorem typeDefNameWithin_new {known : KnownNames} {n : Nat} (h : known.lookup n = none)
    (depth : Nat) :
    typeDefNameWithin t depth n known =
      (match Tables.row? t.typeDefs n with
      | none => return Tables.placeholder "TypeDef" n
      | some r => do
        let name ←
          match t.outer? n with
          | none => pure (TypeInfo.qualify r.namespaceName r.name)
          | some outer =>
            match depth with
            | depth + 1 => do
              let around ← typeDefNameWithin t depth outer
              pure (around ++ "/" ++ r.name)
            | 0 => throw .endless
        modify ((n, name) :: ·)
        return name : Recall String) known := by
  conv => lhs; unfold typeDefNameWithin
  rw [get_bind]
  generalize known.lookup n = found at h ⊢
  subst h
  rfl

/-- A name that is known is right; so only names that are not known yet need to be made. -/
theorem gives_of_new {n depth : Nat} {name : String} (hname : t.typeDefName n = .ok name)
    (hnew : ∀ known, Right t known → known.lookup n = none →
      ∃ known', Right t known' ∧ typeDefNameWithin t depth n known = .ok name known') :
    Gives (Right t) (typeDefNameWithin t depth n) (.ok name) := by
  intro known hknown
  cases hlookup : known.lookup n with
  | some name' =>
    have hright := hknown.of_lookup hlookup
    rw [hname] at hright
    cases hright
    rw [typeDefNameWithin_known hlookup]
    exact ⟨known, hknown, rfl⟩
  | none => exact hnew known hknown hlookup

/-- By induction on the chain. Each name on the way down is kept, and is right to keep. -/
theorem gives_typeDefNameWithin {n top : Nat} {names : List String} (h : Chain t n top names) :
    ∀ {depth}, names.length ≤ depth →
      Gives (Right t) (typeDefNameWithin t depth n) (.ok (t.chainText top names)) := by
  induction h with
  | @top n hnone =>
    intro depth _
    have hname := Tables.typeDefName_of_chain (.top hnone)
    refine gives_of_new hname fun known hknown hlookup => ?_
    have htext : t.chainText n [] = t.outermostName n := by simp [Tables.chainText]
    rw [typeDefNameWithin_new hlookup, htext, Tables.outermostName]
    cases hrow : Tables.row? t.typeDefs n with
    | none => exact ⟨known, hknown, rfl⟩
    | some r =>
      rw [htext, Tables.outermostName, hrow] at hname
      refine ⟨_, hknown.cons hname, ?_⟩
      simp only [hnone r hrow]
      rfl
  | @inside n outer top names r hrow houter hchain ih =>
    intro depth hdepth
    have hname := Tables.typeDefName_of_chain (.inside hrow houter hchain)
    refine gives_of_new hname fun known hknown hlookup => ?_
    rw [List.length_append, List.length_singleton] at hdepth
    obtain ⟨depth, rfl⟩ : ∃ d, depth = d + 1 := ⟨depth - 1, by omega⟩
    -- the types around this one first; they may add names, but right ones
    obtain ⟨known', hknown', haround⟩ := ih (by omega : names.length ≤ depth) known hknown
    refine ⟨_, hknown'.cons hname, ?_⟩
    rw [typeDefNameWithin_new hlookup, hrow, houter, Tables.chainText_concat]
    exact (bind_eq_of_ok haround).trans rfl

/-- By induction on the depth. A type that no chain leads up from is not among the known ones,
    and neither is the type around it. -/
theorem gives_endless : ∀ (depth : Nat) {n : Nat}, (∀ top names, ¬ Chain t n top names) →
    Gives (Right t) (typeDefNameWithin t depth n) (.error .endless)
  | depth, n, h => by
    intro known hknown
    have hnew : known.lookup n = none := by
      by_contra hlookup
      obtain ⟨name, hlookup⟩ := Option.ne_none_iff_exists'.mp hlookup
      have hname := hknown.of_lookup hlookup
      rw [Tables.typeDefName_eq_endless_iff.mpr h] at hname
      cases hname
    rw [typeDefNameWithin_new hnew]
    cases hrow : Tables.row? t.typeDefs n with
    | none => exact absurd (.top (by simp [hrow])) (h n [])
    | some r =>
      cases houter : t.outer? n with
      | none => exact absurd (.top fun _ _ => houter) (h n [])
      | some outer =>
        cases depth with
        | zero => exact ⟨known, hknown, rfl⟩
        | succ depth =>
          have houtside : ∀ top names, ¬ Chain t outer top names :=
            fun top names hchain => h top _ (.inside hrow houter hchain)
          obtain ⟨known', hknown', haround⟩ := gives_endless depth houtside known hknown
          exact ⟨known', hknown', bind_eq_of_error haround⟩

/-! ### Texts -/

theorem gives_typeDefName (n : Nat) :
    Gives (Right t) (typeDefName t n) (t.typeDefName n) := by
  by_cases h : ∃ top names, Chain t n top names
  · obtain ⟨top, names, hchain⟩ := h
    rw [Tables.typeDefName_of_chain hchain]
    exact gives_typeDefNameWithin hchain hchain.length_le
  · have hnone : ∀ top names, ¬ Chain t n top names := by simpa using h
    rw [Tables.typeDefName_eq_endless_iff.mpr hnone]
    exact gives_endless _ hnone

theorem gives_lift {ε α : Type} {I : KnownNames → Prop} (x : Except ε α) :
    Gives I (KnownNames.lift x) x := by
  intro known hknown
  refine ⟨known, hknown, ?_⟩
  cases x <;> rfl

/-- By recursion on the bound of type specifications inside each other. -/
theorem gives_typeNameWithin : ∀ (depth : Nat) (token : Token),
    Gives (Right t) (typeNameWithin t depth token) (t.typeNameWithin depth token)
  | depth, token => by
    unfold typeNameWithin Tables.typeNameWithin
    refine .ite (gives_typeDefName _) <| .ite (gives_lift _) <| .ite ?_ (.pure _)
    cases Tables.row? t.typeSpecs token.row with
    | none => exact .pure _
    | some signature =>
      cases depth with
      | zero => exact .throw _
      | succ depth =>
        have hread := AskingReader.follows_type (gives_typeNameWithin depth)
        exact (hread.decode signature).map _

theorem gives_typeName (token : Token) :
    Gives (Right t) (typeName t token) (t.typeName token) :=
  gives_typeNameWithin _ token

theorem gives_methodSignature (blob : Bytes) :
    Gives (Right t) (methodSignature t blob) (t.methodSignature blob) :=
  ((AskingReader.follows_method gives_typeName).decode blob).map _

theorem gives_fieldType (blob : Bytes) :
    Gives (Right t) (fieldType t blob) (t.fieldType blob) :=
  ((AskingReader.follows_field gives_typeName).decode blob).map _

theorem gives_methodDefText (n : Nat) (arguments : List String) :
    Gives (Right t) (methodDefText t n arguments) (t.methodDefText n arguments) := by
  unfold methodDefText Tables.methodDefText
  cases Tables.row? t.methods n with
  | none => exact .pure _
  | some r =>
    refine (gives_typeDefName _).bind fun owner => ?_
    exact (gives_methodSignature _).bind fun _ => .pure _

theorem gives_fieldText (n : Nat) : Gives (Right t) (fieldText t n) (t.fieldText n) := by
  unfold fieldText Tables.fieldText
  cases Tables.row? t.fields n with
  | none => exact .pure _
  | some r =>
    refine (gives_typeDefName _).bind fun owner => ?_
    exact (gives_fieldType _).bind fun _ => .pure _

theorem gives_memberRefOwner (parent? : Option Token) :
    Gives (Right t) (memberRefOwner t parent?) (t.memberRefOwner parent?) := by
  cases parent? with
  | none => exact .pure _
  | some parent =>
    refine .ite (gives_typeDefName _) <| .ite ?_ (gives_typeName _)
    cases Tables.row? t.moduleRefs parent.row with
    | none => exact .pure _
    | some name => exact .pure _

theorem gives_memberRefText (n : Nat) (arguments : List String) :
    Gives (Right t) (memberRefText t n arguments) (t.memberRefText n arguments) := by
  unfold memberRefText Tables.memberRefText
  cases Tables.row? t.memberRefs n with
  | none => exact .pure _
  | some r =>
    refine (gives_memberRefOwner _).bind fun owner => .ite ?_ ?_
    · exact (gives_fieldType _).bind fun _ => .pure _
    · exact (gives_methodSignature _).bind fun _ => .pure _

theorem gives_methodSpecText (n : Nat) :
    Gives (Right t) (methodSpecText t n) (t.methodSpecText n) := by
  unfold methodSpecText Tables.methodSpecText
  cases Tables.row? t.methodSpecs n with
  | none => exact .pure _
  | some r =>
    have hread := AskingReader.follows_instantiation (gives_typeName (t := t))
    refine (hread.decode _).bind fun types => ?_
    cases r.method? with
    | none => exact .pure _
    | some method =>
      exact .ite (gives_methodDefText _ _) <|
        .ite (gives_memberRefText _ _) (.pure _)

theorem gives_tokenText (token : Token) :
    Gives (Right t) (tokenText t token) (t.tokenText token) :=
  .ite (gives_typeName _) <| .ite (gives_methodDefText _ _) <|
    .ite (gives_fieldText _) <| .ite (gives_memberRefText _ _) <|
    .ite (gives_methodSpecText _) <| .ite (.pure _) (.pure _)

end ILDump.Recall
