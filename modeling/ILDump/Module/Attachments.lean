import ILDump.Module.Naming
import ILDump.Metadata.Flags

/-!
# Attachments

Attributes and accessors stand in side tables, each row with the token of the row that
it belongs to. Their texts are made once, row by row in table order, and are then found
by token.
-/

namespace ILDump

/-- The texts that the side tables attach to other rows. -/
structure Attachments where
  attributes : List (Token × CustomAttribute)
  /-- Accessors with the place of their directive in the listing order. -/
  accessors : List (Token × Nat × Accessor)

namespace Attachments

/-- The attribute of a row, if both its parent and its constructor are there. -/
def attributeOf (t : Tables) (r : AttributeRow) :
    Except SignatureFault (Option (Token × CustomAttribute)) :=
  match r.parent?, r.constructor? with
  | some parent, some constructor => do
    let text ← t.tokenText constructor
    return some (parent, ⟨text, r.value⟩)
  | _, _ => return none

/-- The directives of an accessor row with their places in the listing order. -/
def directives (flags : Nat) : List (Nat × String) :=
  ((Flags.accessorDirectives.mapIdx fun i d => (i, d)).filter fun d =>
    flags &&& d.2.1 ≠ 0).map fun d => (d.1, d.2.2)

def accessorsOfRow (t : Tables) (r : SemanticsRow) :
    Except SignatureFault (List (Token × Nat × Accessor)) :=
  match r.association? with
  | some association =>
    if r.method = 0 then return []
    else
      (directives r.flags).mapM fun d => do
        let text ← t.methodDefText r.method []
        return (association, d.1, ⟨d.2, text⟩)
  | none => return []

def of (t : Tables) : Except SignatureFault Attachments := do
  let attributes ← t.attributes.mapM (attributeOf t)
  let accessors ← t.semantics.mapM (accessorsOfRow t)
  return ⟨attributes.filterMap id, accessors.flatten⟩

def attributesOf (a : Attachments) (token : Token) : List CustomAttribute :=
  (a.attributes.filter fun p => p.1 = token).map (·.2)

/-- Whether an accessor may stand before another: by directive, then by method. -/
def accessorLe (a b : Nat × Accessor) : Bool :=
  decide (a.1 < b.1) || (a.1 == b.1 && !decide (b.2.method < a.2.method))

/-- The accessors of a property or event, getters first. -/
def accessorsOf (a : Attachments) (token : Token) : List Accessor :=
  let owned := (a.accessors.filter fun p => p.1 = token).map (·.2)
  (owned.mergeSort accessorLe).map (·.2)

end Attachments

end ILDump
