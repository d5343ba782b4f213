import TwinShape.Proofs.Node.Tree
import TwinShape.Proofs.Registry.Resolution

namespace TwinShape

def Restriction.mirrored : Restriction → Restriction
  | .unrestricted => .unrestricted
  | .only v => .only v.other

mutual
def Node.mirrored : Node → Node
  | ⟨shape, annotations, optionality, restriction, misuse⟩ => ⟨mirroredShape shape, annotations, optionality, restriction.mirrored, misuse⟩

def mirroredShape : Shape Node → Shape Node
  | .object ⟨properties, additional, parents⟩ =>
    .object ⟨mirroredProperties properties, mirroredAdditional additional, mirroredNodes parents⟩
  | .array item => .array item.mirrored
  | .union members => .union (mirroredNodes members)
  | .linked declaration schema => .linked declaration.mirrored schema.mirrored
  | shape => shape

def mirroredAdditional : Additional Node → Additional Node
  | .forbidden => .forbidden
  | .allowed => .allowed
  | .shape n => .shape n.mirrored

def mirroredProperties : List (Property Node) → List (Property Node)
  | [] => []
  | ⟨name, value, restriction⟩ :: rest => ⟨name, value.mirrored, restriction.mirrored⟩ :: mirroredProperties rest

def mirroredNodes : List Node → List Node
  | [] => []
  | n :: rest => n.mirrored :: mirroredNodes rest
end

-- The registry in which everything has changed its restriction to one variant for that to the
-- other.
def Registry.mirrored (r : Registry) : Registry :=
  ⟨r.definitions.map fun d => ⟨d.name, d.node.mirrored⟩, by
    rw [List.map_map]
    exact r.distinct, r.engines⟩

namespace Restriction

theorem includes_mirrored (restriction : Restriction) (v : Variant) :
    restriction.mirrored.includes v = restriction.includes v.other := by
  cases restriction with
  | unrestricted => rfl
  | only w => cases w <;> cases v <;> rfl

theorem isRestricted_mirrored (restriction : Restriction) :
    restriction.mirrored.isRestricted = restriction.isRestricted := by
  cases restriction <;> rfl

end Restriction

namespace Node

theorem shape_mirrored (n : Node) : n.mirrored.shape = mirroredShape n.shape := by
  obtain ⟨shape, annotations, optionality, restriction, misuse⟩ := n
  rw [mirrored]

theorem restriction_mirrored (n : Node) : n.mirrored.restriction = n.restriction.mirrored := by
  obtain ⟨shape, annotations, optionality, restriction, misuse⟩ := n
  rw [mirrored]

end Node

theorem mirroredShape_leaf {shape : Shape Node} (leaf : shape.isLeaf) : mirroredShape shape = shape := by
  cases shape <;> first | rfl | cases leaf

theorem isLeaf_mirrored (shape : Shape Node) : (mirroredShape shape).isLeaf = shape.isLeaf := by
  cases shape <;> rfl

theorem Node.kindName_mirrored (n : Node) : n.mirrored.kindName = n.kindName := by
  rw [kindName, shape_mirrored, kindName]
  cases n.shape <;> rfl

theorem canBeParent_mirrored (shape : Shape Node) : canBeParent (mirroredShape shape) = canBeParent shape := by
  cases shape <;> rfl

def Property.mirrored (p : Property Node) : Property Node := ⟨p.name, p.value.mirrored, p.restriction.mirrored⟩

theorem mirroredProperties_eq (properties : List (Property Node)) :
    mirroredProperties properties = properties.map Property.mirrored := by
  induction properties with
  | nil => rfl
  | cons p rest ih => exact congrArg (p.mirrored :: ·) ih

theorem mirroredNodes_eq (nodes : List Node) : mirroredNodes nodes = nodes.map Node.mirrored := by
  induction nodes with
  | nil => rfl
  | cons n rest ih => exact congrArg (n.mirrored :: ·) ih

-- Checks take no notice of restrictions.
section
variable (engine : PatternEngine)

mutual
theorem Node.defaultFlaw?_mirrored (value : Json) :
    (n : Node) → n.mirrored.defaultFlaw? engine value = n.defaultFlaw? engine value
  | ⟨shape, annotations, optionality, restriction, misuse⟩ => by
    cases shape with
    | union members =>
      have takes := anyTakesDefault_mirrored value members
      change (bif anyTakesDefault engine value (mirroredNodes members) then none else some (Flaw.invalidDefault value "union")) = _
      rw [takes]
      rfl
    | _ => rfl

theorem anyTakesDefault_mirrored (value : Json) :
    (members : List Node) → anyTakesDefault engine value (mirroredNodes members) = anyTakesDefault engine value members
  | [] => rfl
  | n :: rest => by
    rw [mirroredNodes, anyTakesDefault, anyTakesDefault, Node.defaultFlaw?_mirrored value n, anyTakesDefault_mirrored value rest]
end

theorem Node.ownFlaw?_mirrored (place : Place) (n : Node) :
    n.mirrored.ownFlaw? engine place = n.ownFlaw? engine place := by
  have same : n.mirrored.misuse = n.misuse ∧ n.mirrored.annotations = n.annotations ∧ n.mirrored.default? = n.default? := by
    obtain ⟨shape, annotations, optionality, restriction, misuse⟩ := n
    exact ⟨rfl, rfl, rfl⟩
  unfold Node.ownFlaw?
  simp only [same.1, same.2.1, same.2.2, Node.defaultFlaw?_mirrored]

mutual
theorem Node.firstFlaw?_mirrored (place : Place) :
    (n : Node) → n.mirrored.firstFlaw? engine place = n.firstFlaw? engine place
  | ⟨shape, annotations, optionality, restriction, misuse⟩ => by
    have own := Node.ownFlaw?_mirrored engine place ⟨shape, annotations, optionality, restriction, misuse⟩
    rw [Node.mirrored] at own ⊢
    rw [Node.firstFlaw?, Node.firstFlaw?, own, shapeFlaw?_mirrored place shape]

theorem shapeFlaw?_mirrored (place : Place) :
    (shape : Shape Node) → shapeFlaw? engine place (mirroredShape shape) = shapeFlaw? engine place shape
  | .object ⟨properties, additional, parents⟩ => by
    rw [mirroredShape, shapeFlaw?, shapeFlaw?, propertiesFlaw?_mirrored place [] properties, additionalFlaw?_mirrored place additional,
      parentsFlaw?_mirrored place 0 parents]
  | .array item => by rw [mirroredShape, shapeFlaw?, shapeFlaw?, Node.firstFlaw?_mirrored (place.child "items") item]
  | .union members => by rw [mirroredShape, shapeFlaw?, shapeFlaw?, membersFlaw?_mirrored place 0 members]
  | .linked declaration schema => by
    rw [mirroredShape, shapeFlaw?, shapeFlaw?, Node.firstFlaw?_mirrored (place.child "declaration") declaration,
      Node.firstFlaw?_mirrored (place.child "schema") schema]
  | .enumeration .. | .constant _ | .string | .number | .integer | .boolean | .null | .reference _ | .raw .. | .imported .. => rfl

theorem additionalFlaw?_mirrored (place : Place) :
    (additional : Additional Node) → additionalFlaw? engine place (mirroredAdditional additional) = additionalFlaw? engine place additional
  | .forbidden | .allowed => rfl
  | .shape n => Node.firstFlaw?_mirrored (place.child "additionalProperties") n

theorem propertiesFlaw?_mirrored (place : Place) (seen : List String) :
    (properties : List (Property Node)) →
      propertiesFlaw? engine place seen (mirroredProperties properties) = propertiesFlaw? engine place seen properties
  | [] => rfl
  | ⟨name, value, restriction⟩ :: rest => by
    rw [mirroredProperties, propertiesFlaw?, propertiesFlaw?, Node.firstFlaw?_mirrored (place.property name) value,
      propertiesFlaw?_mirrored place (name :: seen) rest]

theorem parentsFlaw?_mirrored (place : Place) (i : Nat) :
    (parents : List Node) → parentsFlaw? engine place i (mirroredNodes parents) = parentsFlaw? engine place i parents
  | [] => rfl
  | n :: rest => by
    rw [mirroredNodes, parentsFlaw?, parentsFlaw?, Node.firstFlaw?_mirrored (place.item "extends" i) n, parentsFlaw?_mirrored place (i + 1) rest,
      n.shape_mirrored, canBeParent_mirrored, n.kindName_mirrored]

theorem membersFlaw?_mirrored (place : Place) (i : Nat) :
    (members : List Node) → membersFlaw? engine place i (mirroredNodes members) = membersFlaw? engine place i members
  | [] => rfl
  | n :: rest => by
    rw [mirroredNodes, membersFlaw?, membersFlaw?, Node.firstFlaw?_mirrored (place.item "anyOf" i) n, membersFlaw?_mirrored place (i + 1) rest]
end

end

namespace Registry
variable {r : Registry}

theorem find?_mirrored (r : Registry) (name : String) : r.mirrored.find? name = (r.find? name).map Node.mirrored := by
  rw [find?, find?, mirrored, List.find?_map, Option.map_map, Option.map_map]
  rfl

theorem resolution_mirrored (r : Registry) (referencing name : String) :
    SameOutcome True (fun a b => a.val = b.val.mirrored) (r.mirrored.resolution referencing name) (r.resolution referencing name) := by
  rcases Option.eq_none_or_eq_some (r.find? name) with missing | ⟨n, found⟩
  · have missing' : r.mirrored.find? name = none := by rw [find?_mirrored, missing]; rfl
    rw [resolution_missing missing, resolution_missing missing']
    exact fun _ => rfl
  · have found' : r.mirrored.find? name = some n.mirrored := by rw [find?_mirrored, found]; rfl
    have flaws := n.firstFlaw?_mirrored r.engines.pattern .root
    cases flaw : n.firstFlaw? r.engines.pattern .root with
    | none =>
      rw [resolution_of_resolves ⟨found, flaw⟩, resolution_of_resolves ⟨found', flaws.trans flaw⟩]
      rfl
    | some finding =>
      rw [resolution_flawed found flaw, resolution_flawed found' (flaws.trans flaw)]
      exact fun _ => rfl

end Registry
end TwinShape
