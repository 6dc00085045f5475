import ILDump.Listing.Writer
import ILDump.Proofs.Listing.Arrangement

/-!
# Listings of rearranged modules

A compiler may write the same program twice with its types and members in another order,
under other tokens and with another module identifier. `ModuleImage.Rearranged` says that
one module came from another that way, at any depth, and `Distinct` that siblings can be
told apart by their keys. By name, both modules have the same listing.
-/

namespace ILDump

/-! ### Other tokens -/

class Retokened (α : Type) where
  withToken : Token → α → α

namespace Retokened

instance : Retokened FieldDefinition where
  withToken token f := { f with token }

instance : Retokened MethodDefinition where
  withToken token m := { m with token }

instance : Retokened PropertyDefinition where
  withToken token p := { p with token }

instance : Retokened EventDefinition where
  withToken token e := { e with token }

instance : Retokened AssemblyReference where
  withToken token r := { r with token }

end Retokened

/-- The same thing under a token of its own. -/
def SameBesidesToken {α : Type} [Retokened α] (x y : α) : Prop :=
  ∃ token, y = Retokened.withToken token x

/-! ### Rearranged modules -/

/-- The members of a type in another order and under other tokens; everything else about
    the type is the same. -/
structure TypeInfo.Rearranged (t u : TypeInfo) : Prop where
  fields : Shuffled SameBesidesToken t.fields u.fields
  methods : Shuffled SameBesidesToken t.methods u.methods
  properties : Shuffled SameBesidesToken t.properties u.properties
  events : Shuffled SameBesidesToken t.events u.events
  rest : u = { t with
    fields := u.fields, methods := u.methods, properties := u.properties, events := u.events,
    token := u.token }

/-- A type whose members, and whose nested types together with what is in them, stand in
    another order and under other tokens. -/
inductive TypeDefinition.Rearranged : TypeDefinition → TypeDefinition → Prop where
  | node {info info' : TypeInfo} {nested between nested' : List TypeDefinition} :
    info.Rearranged info' →
    List.Forall₂ TypeDefinition.Rearranged nested between →
    between.Perm nested' →
    TypeDefinition.Rearranged (.node info nested) (.node info' nested')

/-- A module read from another place, with another identifier, other tokens and another
    order of siblings at any depth. -/
structure ModuleImage.Rearranged (a b : ModuleImage) : Prop where
  header : b.header = { a.header with mvid := b.header.mvid }
  assembly : b.assembly? = a.assembly?
  references : List.Forall₂ SameBesidesToken a.references b.references
  types : Shuffled TypeDefinition.Rearranged a.types b.types

/-! ### Siblings told apart by their keys -/

/-- In none of its lists does a type have two members with the same key. -/
structure TypeInfo.Distinct (t : TypeInfo) : Prop where
  fields : DistinctKeys t.fields
  methods : DistinctKeys t.methods
  properties : DistinctKeys t.properties
  events : DistinctKeys t.events

/-- Neither among the members of a type nor among its nested types, at any depth, do two
    siblings have the same key. -/
inductive TypeDefinition.Distinct : TypeDefinition → Prop where
  | node {info : TypeInfo} {nested : List TypeDefinition} :
    info.Distinct → DistinctKeys nested → (∀ t ∈ nested, t.Distinct) →
    TypeDefinition.Distinct (.node info nested)

structure ModuleImage.Distinct (image : ModuleImage) : Prop where
  roots : DistinctKeys image.types
  types : ∀ t ∈ image.types, t.Distinct

/-! ### What other tokens leave -/
namespace SameBesidesToken

theorem field_eq {f g : FieldDefinition} (h : SameBesidesToken f g) :
    Listed.sortKey f = Listed.sortKey g ∧ Listing.field f = Listing.field g := by
  obtain ⟨token, rfl⟩ := h
  exact ⟨rfl, rfl⟩

theorem method_eq {m n : MethodDefinition} (h : SameBesidesToken m n) (owner : TypeInfo) :
    Listed.sortKey m = Listed.sortKey n ∧ Listing.method owner m = Listing.method owner n := by
  obtain ⟨token, rfl⟩ := h
  exact ⟨rfl, rfl⟩

theorem property_eq {p q : PropertyDefinition} (h : SameBesidesToken p q) :
    Listed.sortKey p = Listed.sortKey q ∧ Listing.property p = Listing.property q := by
  obtain ⟨token, rfl⟩ := h
  exact ⟨rfl, rfl⟩

theorem event_eq {e f : EventDefinition} (h : SameBesidesToken e f) :
    Listed.sortKey e = Listed.sortKey f ∧ Listing.event e = Listing.event f := by
  obtain ⟨token, rfl⟩ := h
  exact ⟨rfl, rfl⟩

theorem reference_eq {r s : AssemblyReference} (h : SameBesidesToken r s) :
    Listing.reference r = Listing.reference s := by
  obtain ⟨token, rfl⟩ := h
  rfl

end SameBesidesToken

/-! ### One type -/
namespace Listing

theorem eachType_eq_map (order : MemberOrder) (ts : List TypeDefinition) :
    eachType order ts = ts.map fun t => (t, type order t) := by
  induction ts with
  | nil => rw [eachType, List.map_nil]
  | cons t ts ih => rw [eachType, ih, List.map_cons]

theorem type_node (order : MemberOrder) (info : TypeInfo) (nested : List TypeDefinition) :
    type order (.node info nested) =
      typeAround order info ((order.arrange nested).map (type order)) := by
  rw [type, eachType_eq_map, MemberOrder.arrange_map_pair, List.map_map]
  rfl

end Listing

namespace TypeInfo

variable {t u : TypeInfo}

theorem Rearranged.fullName_eq (h : t.Rearranged u) : t.fullName = u.fullName := by
  rw [h.rest]
  rfl

/-- What stands around the members of a type does not depend on the members. -/
theorem Rearranged.typeAround_eq (h : t.Rearranged u) (hd : t.Distinct)
    (nested : List (List Step)) :
    Listing.typeAround .byName t nested = Listing.typeAround .byName u nested := by
  have hfields := MemberOrder.arrange_byName_map_eq hd.fields h.fields
    fun _ _ _ hxy => hxy.field_eq
  have hmethods := MemberOrder.arrange_byName_map_eq hd.methods h.methods
    fun _ _ _ hxy => hxy.method_eq t
  have hproperties := MemberOrder.arrange_byName_map_eq hd.properties h.properties
    fun _ _ _ hxy => hxy.property_eq
  have hevents := MemberOrder.arrange_byName_map_eq hd.events h.events
    fun _ _ _ hxy => hxy.event_eq
  have howner : Listing.method t = Listing.method u := by
    rw [h.rest]
    rfl
  have hhead : Listing.typeHead t = Listing.typeHead u := by
    rw [h.rest]
    rfl
  have hheritage : Listing.heritage t = Listing.heritage u := by
    rw [h.rest]
    rfl
  have hattributes : t.customAttributes = u.customAttributes := by
    rw [h.rest]
  rw [howner] at hmethods
  simp only [Listing.typeAround, hfields, hmethods, hproperties, hevents, howner, hhead,
    hheritage, hattributes, h.fullName_eq]

theorem Rearranged.isEmptyModuleType_eq (h : t.Rearranged u) :
    Listing.isEmptyModuleType t = Listing.isEmptyModuleType u := by
  have hname : t.name = u.name := by
    rw [h.rest]
  simp only [Listing.isEmptyModuleType, hname, h.fields.isEmpty_eq, h.methods.isEmpty_eq]

end TypeInfo

/-! ### The whole module -/
namespace TypeDefinition

variable {t u : TypeDefinition}

theorem Rearranged.info (h : t.Rearranged u) : t.info.Rearranged u.info := by
  cases h with
  | node hinfo _ _ => exact hinfo

theorem Rearranged.sortKey_eq (h : t.Rearranged u) :
    Listed.sortKey t = Listed.sortKey u :=
  congrArg (SortKey.mk · "") h.info.fullName_eq

/-- **One type by name.** By induction on the type: its nested types are written alike
    before they are arranged, and their keys are different, so they are arranged alike. -/
theorem Rearranged.type_eq : ∀ {t u : TypeDefinition}, t.Rearranged u → t.Distinct →
    Listing.type .byName t = Listing.type .byName u
  | .node info nested, .node info' nested', .node hinfo hnested hperm, .node hd hkeys heach => by
    have hshuffled : Shuffled Rearranged nested nested' := ⟨_, hnested, hperm⟩
    have hinner : (MemberOrder.byName.arrange nested).map (Listing.type .byName) =
        (MemberOrder.byName.arrange nested').map (Listing.type .byName) := by
      refine MemberOrder.arrange_byName_map_eq hkeys hshuffled ?_
      intro x hx y hxy
      exact ⟨hxy.sortKey_eq, Rearranged.type_eq hxy (heach x hx)⟩
    rw [Listing.type_node, Listing.type_node, hinner]
    exact hinfo.typeAround_eq hd _

end TypeDefinition

namespace ModuleImage

variable {a b : ModuleImage}

theorem Rearranged.references_eq (h : a.Rearranged b) :
    Listing.references a = Listing.references b := by
  have hempty : a.references.isEmpty = b.references.isEmpty :=
    Shuffled.isEmpty_eq ⟨_, h.references, .refl _⟩
  have hmap : a.references.map Listing.reference = b.references.map Listing.reference :=
    map_eq_of_forall₂ h.references fun _ _ _ hxy => hxy.reference_eq
  rw [Listing.references, Listing.references, List.flatMap_def, List.flatMap_def, hmap, hempty]

theorem Rearranged.moduleHeader_eq (h : a.Rearranged b) :
    Listing.moduleHeader a true = Listing.moduleHeader b true := by
  simp only [Listing.moduleHeader, Bool.true_or, if_true]
  rw [h.header]

theorem Rearranged.contents_eq (h : a.Rearranged b) (hd : a.Distinct) :
    Listing.contents .byName a = Listing.contents .byName b := by
  rw [Listing.contents, Listing.contents, List.flatMap_def, List.flatMap_def]
  congr 1
  refine MemberOrder.arrange_byName_map_eq hd.roots h.types ?_
  intro x hx y hxy
  refine ⟨hxy.sortKey_eq, ?_⟩
  rw [hxy.info.isEmptyModuleType_eq, hxy.type_eq (hd.types x hx)]

/-- **Reproducible listings.** Listed by name, a module whose siblings have different keys
    and the same module with its siblings in another order, under other tokens, with another
    identifier and read from another place give the same text. -/
theorem Rearranged.render_eq (h : a.Rearranged b) (hd : a.Distinct) :
    Listing.render .byName a = Listing.render .byName b := by
  rw [Listing.render, Listing.render, Listing.all, Listing.all, h.references_eq,
    h.moduleHeader_eq, h.contents_eq hd, Listing.assembly, Listing.assembly, h.assembly]

/-- A module with one type, which has two overloads of a method and two nested types. -/
def sample (path mvid : String) (token : Token) (types : List String) (methods : List Nat) :
    ModuleImage :=
  let info (name : String) (methods : List MethodDefinition) : TypeInfo :=
    ⟨name, "", [], none, [], [], none, [], methods, [], [], [], token⟩
  let method (arity : Nat) : MethodDefinition :=
    ⟨"F", "void", List.replicate arity "int32", [], [], [], [], none, false, [], token⟩
  let nested (name : String) : TypeDefinition :=
    .node (info name []) []
  { path, assembly? := none, references := [],
    header := ⟨"m.dll", mvid, 0, 0, 0, 0, 0, []⟩,
    types := [.node (info "C" (methods.map method)) (types.map nested)] }

/-- The hypotheses hold together, with siblings that really change places. -/
theorem Rearranged.render_eq_sample :
    (sample "a.dll" "1" ⟨1⟩ ["P", "Q"] [2, 1]).Rearranged
      (sample "b.dll" "2" ⟨9⟩ ["Q", "P"] [1, 2]) ∧
    (sample "a.dll" "1" ⟨1⟩ ["P", "Q"] [2, 1]).Distinct ∧
    Listing.render .byName (sample "a.dll" "1" ⟨1⟩ ["P", "Q"] [2, 1]) =
      Listing.render .byName (sample "b.dll" "2" ⟨9⟩ ["Q", "P"] [1, 2]) := by
  have hempty : ∀ {α : Type} {r : α → α → Prop}, Shuffled r [] [] := ⟨[], .nil, .nil⟩
  have hr : (sample "a.dll" "1" ⟨1⟩ ["P", "Q"] [2, 1]).Rearranged
      (sample "b.dll" "2" ⟨9⟩ ["Q", "P"] [1, 2]) := by
    refine ⟨rfl, rfl, .nil, _, .cons ?_ .nil, .refl _⟩
    refine .node ⟨hempty, ⟨_, .cons ⟨⟨9⟩, rfl⟩ (.cons ⟨⟨9⟩, rfl⟩ .nil), .swap _ _ _⟩,
      hempty, hempty, rfl⟩ (.cons ?_ (.cons ?_ .nil)) (.swap _ _ _)
    · exact .node ⟨hempty, hempty, hempty, hempty, rfl⟩ .nil .nil
    · exact .node ⟨hempty, hempty, hempty, hempty, rfl⟩ .nil .nil
  have hd : (sample "a.dll" "1" ⟨1⟩ ["P", "Q"] [2, 1]).Distinct := by
    refine ⟨by decide, ?_⟩
    simp only [sample, List.mem_singleton, forall_eq]
    refine .node ⟨by decide, by decide, by decide, by decide⟩ (by decide) ?_
    intro t ht
    obtain ⟨name, -, rfl⟩ := List.mem_map.mp ht
    exact .node ⟨.nil, .nil, .nil, .nil⟩ .nil (by simp)
  exact ⟨hr, hd, hr.render_eq hd⟩

end ModuleImage

end ILDump
