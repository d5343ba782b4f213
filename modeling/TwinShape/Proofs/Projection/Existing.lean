import Mathlib
import TwinShape.Proofs.Node.Tree
import TwinShape.Proofs.Registry.Resolution

namespace TwinShape

-- A node has a shape in a variant as soon as the definitions with a name in `P` have one.
inductive Node.Present (v : Variant) (P : String → Prop) : Node → Prop
  | object (inside : n.restriction.includes v) (shape : n.shape = .object o) : Present v P n
  | array (inside : n.restriction.includes v) (shape : n.shape = .array item) (here : Present v P item) : Present v P n
  | union (inside : n.restriction.includes v) (shape : n.shape = .union members) (member : m ∈ members)
      (here : Present v P m) : Present v P n
  | linked (inside : n.restriction.includes v) (shape : n.shape = .linked declaration schema)
      (first : Present v P declaration) (second : Present v P schema) : Present v P n
  | reference (inside : n.restriction.includes v) (shape : n.shape = .reference name) (target : P name) : Present v P n
  | leaf (inside : n.restriction.includes v) (leaf : n.shape.isLeaf) : Present v P n

theorem Node.Present.mono {P Q : String → Prop} {n : Node} (present : n.Present v P)
    (weaker : ∀ name, P name → Q name) :
    n.Present v Q := by
  induction present with
  | object inside shape => exact .object inside shape
  | array inside shape _ ih => exact .array inside shape ih
  | union inside shape member _ ih => exact .union inside shape member ih
  | linked inside shape _ _ first second => exact .linked inside shape first second
  | reference inside shape target => exact .reference inside shape (weaker _ target)
  | leaf inside leaf => exact .leaf inside leaf

namespace Node.Present
variable {v : Variant} {P : String → Prop} {n : Node}

theorem inside (present : n.Present v P) : n.restriction.includes v := by
  cases present <;> assumption

theorem item (present : n.Present v P) (shape : n.shape = .array m) : m.Present v P := by
  cases present <;> simp_all [Shape.isLeaf]

theorem member (present : n.Present v P) (shape : n.shape = .union members) : ∃ m ∈ members, m.Present v P := by
  cases present with
  | union _ same inside here => exact Shape.union.inj (same.symm.trans shape) ▸ ⟨_, inside, here⟩
  | _ => simp_all [Shape.isLeaf]

theorem sides (present : n.Present v P) (shape : n.shape = .linked declaration schema) :
    declaration.Present v P ∧ schema.Present v P := by
  cases present <;> simp_all [Shape.isLeaf]

theorem target (present : n.Present v P) (shape : n.shape = .reference name) : P name := by
  cases present <;> simp_all [Shape.isLeaf]

end Node.Present

namespace Registry

def supported (r : Registry) (v : Variant) : Set String →o Set String where
  toFun P := {name | ∃ n, r.Resolves name n ∧ n.Present v (· ∈ P)}
  monotone' _ _ le _ := fun ⟨n, resolves, present⟩ => ⟨n, resolves, present.mono fun _ held => le held⟩

-- The definitions that exist in a variant: the largest set that supports itself.
def existing (r : Registry) (v : Variant) : Set String := OrderHom.gfp (r.supported v)

theorem mem_existing_iff {r : Registry} {v : Variant} {name : String} :
    name ∈ r.existing v ↔ ∃ n, r.Resolves name n ∧ n.Present v (· ∈ r.existing v) := by
  have fixed : r.supported v (r.existing v) = r.existing v := OrderHom.map_gfp _
  exact (Set.ext_iff.1 fixed name).symm

theorem subset_existing {r : Registry} {v : Variant} {P : Set String} (supports : P ⊆ r.supported v P) :
    P ⊆ r.existing v := OrderHom.le_gfp _ supports

end Registry
end TwinShape
