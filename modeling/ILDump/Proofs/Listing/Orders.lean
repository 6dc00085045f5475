import ILDump.Proofs.Listing.Blocks
import Mathlib.Data.List.Perm.Basic

/-!
# Listings in different orders

The order of siblings decides where lines stand, not which lines there are, nor how deep they
stand. This needs every part to come back to its depth, or a type would move the lines of
those behind it; headings and empty lines around a group of members depend only on whether
there are any.
-/

namespace ILDump

theorem MemberOrder.isEmpty_map_arrange {α β : Type} [Listed α] (order : MemberOrder)
    (f : α → β) (members : List α) :
    ((order.arrange members).map f).isEmpty = members.isEmpty := by
  rw [List.isEmpty_map, (order.arrange_perm members).isEmpty_eq]

namespace Listing

open Step

/-- Steps that come back to the depth they find, whatever lines they write. -/
def Returning : List Step → Prop :=
  Block fun _ => True

theorem anyLine (text : String) (_ : IsPlain text) : True := trivial

theorem linesAt_flatMap {α : Type} {xs : List α} {f : α → List Step}
    (h : ∀ x ∈ xs, Returning (f x)) (depth : Nat) :
    linesAt depth (xs.flatMap f) = xs.flatMap fun x => linesAt depth (f x) := by
  induction xs with
  | nil => rfl
  | cons x xs ih =>
    have hhead : Returning (f x) := h x (by simp)
    have htail := ih fun y hy => h y (by simp [hy])
    rw [List.flatMap_cons, List.flatMap_cons, Block.linesAt_append hhead, htail]

/-- Steps that come back to the depth they find and write the same lines at the same depths,
    each as often. -/
structure SameLines (xs ys : List Step) : Prop where
  left : Returning xs
  right : Returning ys
  perm : ∀ depth, (linesAt depth xs).Perm (linesAt depth ys)

namespace SameLines

variable {xs xs' ys ys' : List Step}

theorem refl (h : Returning xs) : SameLines xs xs :=
  ⟨h, h, fun _ => .refl _⟩

theorem line (text : String) : SameLines [.line text] [.line text] :=
  refl (Block.one trivial)

theorem append (h : SameLines xs xs') (h' : SameLines ys ys') :
    SameLines (xs ++ ys) (xs' ++ ys') := by
  refine ⟨Block.append h.left h'.left, Block.append h.right h'.right, fun depth => ?_⟩
  rw [Block.linesAt_append h.left, Block.linesAt_append h.right]
  exact (h.perm depth).append (h'.perm depth)

theorem deeper (h : SameLines xs xs') : SameLines (Listing.deeper xs) (Listing.deeper xs') := by
  refine ⟨Block.indented h.left, Block.indented h.right, fun depth => ?_⟩
  have hlines {zs : List Step} (hz : Returning zs) :
      linesAt depth (Listing.deeper zs) = linesAt (depth + 1) zs := by
    simpa using Block.linesAt_deeper hz depth []
  rw [hlines h.left, hlines h.right]
  exact h.perm (depth + 1)

/-- Siblings with the same lines have them together in any two orders. -/
theorem arranged {α : Type} [Listed α] (order order' : MemberOrder) {members : List α}
    {f g : α → List Step} (h : ∀ x ∈ members, SameLines (f x) (g x)) :
    SameLines ((order.arrange members).flatMap f) ((order'.arrange members).flatMap g) := by
  have hperm := order.arrange_perm members
  have hperm' := order'.arrange_perm members
  have hf : ∀ x ∈ order.arrange members, Returning (f x) :=
    fun x hx => (h x (hperm.mem_iff.mp hx)).left
  have hg : ∀ x ∈ order'.arrange members, Returning (g x) :=
    fun x hx => (h x (hperm'.mem_iff.mp hx)).right
  refine ⟨Block.flatMap hf, Block.flatMap hg, fun depth => ?_⟩
  rw [linesAt_flatMap hf, linesAt_flatMap hg]
  refine (hperm.flatMap_right _).trans (.trans ?_ (hperm'.flatMap_right _).symm)
  exact List.Perm.flatMap_left members fun x hx => (h x hx).perm depth

/-- Whether there is a heading does not depend on the order below it. -/
theorem group {α : Type} [Listed α] (order order' : MemberOrder) (heading : String)
    {members : List α} {f g : α → List Step} (h : ∀ x ∈ members, SameLines (f x) (g x)) :
    SameLines (Listing.group heading ((order.arrange members).map f))
      (Listing.group heading ((order'.arrange members).map g)) := by
  simp only [Listing.group, MemberOrder.isEmpty_map_arrange, ← List.flatMap_def]
  split
  · exact refl .nil
  · exact ((line _).append (arranged order order' h)).append (line "")

end SameLines

/-! ### Types in two orders -/

theorem sameLines_members {α : Type} [Listed α] (order order' : MemberOrder) (heading : String)
    (members : List α) {f : α → List Step} (h : ∀ m, Returning (f m)) :
    SameLines (group heading ((order.arrange members).map f))
      (group heading ((order'.arrange members).map f)) :=
  .group order order' heading fun m _ => .refl (h m)

/-- **A type has the same lines in any two orders.** By induction on the type: each type in it
    has, and they stand together under one heading. -/
theorem sameLines_type (order order' : MemberOrder) : ∀ t : TypeDefinition,
    SameLines (type order t) (type order' t)
  | .node info nested => by
    have hnested : SameLines
        (group "Nested Types" ((order.arrange nested).map (type order)))
        (group "Nested Types" ((order'.arrange nested).map (type order'))) :=
      .group order order' _ fun t ht => sameLines_type order order' t
    have hfields := sameLines_members order order' "Fields" info.fields (block_field anyLine)
    have hmethods := sameLines_members order order' "Methods" info.methods
      (block_method anyLine info)
    have hproperties := sameLines_members order order' "Properties" info.properties
      (f := property) fun _ => block_property anyLine fun _ _ => trivial
    have hevents := sameLines_members order order' "Events" info.events
      (f := event) fun _ => block_event anyLine fun _ _ => trivial
    have hattributes := SameLines.refl (block_customAttributes anyLine info.customAttributes)
    have hinside := ((((hattributes.append hnested).append hfields).append hmethods).append
      hproperties).append hevents
    have hheritage := SameLines.refl (block_heritage anyLine info)
    rw [type_node, type_node]
    exact ((((SameLines.line _).append hheritage).append (.line _)).append hinside.deeper).append
      (.line _)
  termination_by t => sizeOf t
  decreasing_by
    have := List.sizeOf_lt_of_mem ht
    simp only [TypeDefinition.node.sizeOf_spec]
    omega

theorem sameLines_all (order order' : MemberOrder) (image : ModuleImage) :
    SameLines (all order image) (all order' image) := by
  have hcontents : SameLines (contents order image) (contents order' image) := by
    refine .arranged order order' fun t _ => ?_
    split
    · exact .refl .nil
    · exact (sameLines_type order order' t).append (.line "")
  have hreferences := SameLines.refl (block_references anyLine image)
  have hassembly := SameLines.refl (block_assembly anyLine image)
  have hheader := SameLines.refl (block_moduleHeader anyLine image true)
  exact ((((hreferences.append hassembly).append (.line "")).append hheader).append
    (.line "")).append hcontents

/-- **The order of siblings only permutes the lines of a listing**, indentation included. This
    holds for any two orders, whatever names, keys and tokens the module has. -/
theorem lines_perm (order order' : MemberOrder) (image : ModuleImage) :
    ((Output.empty "\t").run (all order image)).lines.toList.Perm
      ((Output.empty "\t").run (all order' image)).lines.toList := by
  rw [lines_run, lines_run]
  exact (((sameLines_all order order' image).perm 0).map _).append_left _

end Listing

end ILDump
