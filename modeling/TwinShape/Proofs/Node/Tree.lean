import TwinShape.Node.Basic

namespace TwinShape

def Additional.nodes : Additional ν → List ν
  | .forbidden | .allowed => []
  | .shape n => [n]

def Shape.children : Shape Node → List Node
  | .object o => o.properties.map (·.value) ++ o.additional.nodes ++ o.parents
  | .array item => [item]
  | .union members => members
  | .linked declaration schema => [declaration, schema]
  | _ => []

def Node.children (n : Node) : List Node := n.shape.children

theorem Node.child_of_shape {n : Node} {s : Shape Node} (shape : n.shape = s) (inside : c ∈ s.children) :
    c ∈ n.children := by
  subst shape
  exact inside

theorem Node.shape_of_object? {n : Node} (object : n.object? = some o) : n.shape = .object o := by
  unfold Node.object? at object
  split at object
  · cases object
    assumption
  · cases object

-- Shapes that hold no nodes and name no definition. Projection takes them as they are.
def Shape.isLeaf : Shape Node → Bool
  | .object _ | .array _ | .union _ | .reference _ | .linked .. => false
  | _ => true

theorem Shape.children_leaf {s : Shape Node} (leaf : s.isLeaf) : s.children = [] := by
  cases s <;> first | exact absurd leaf Bool.false_ne_true | rfl

theorem Shape.sizeOf_child {s : Shape Node} {n : Node} (member : n ∈ s.children) :
    sizeOf n < sizeOf s := by
  cases s with
  | object o =>
    obtain ⟨properties, additional, parents⟩ := o
    rcases List.mem_append.1 member with member | member
    · rcases List.mem_append.1 member with member | member
      · obtain ⟨p, inside, rfl⟩ := List.mem_map.1 member
        have smaller := List.sizeOf_lt_of_mem inside
        obtain ⟨name, value, restriction⟩ := p
        simp only [Property.mk.sizeOf_spec, Shape.object.sizeOf_spec, ObjectShape.mk.sizeOf_spec] at smaller ⊢
        omega
      · cases additional with
        | forbidden | allowed => cases member
        | shape only =>
          cases List.mem_singleton.1 member
          simp only [Shape.object.sizeOf_spec, ObjectShape.mk.sizeOf_spec, Additional.shape.sizeOf_spec]
          omega
    · have smaller := List.sizeOf_lt_of_mem member
      simp only [Shape.object.sizeOf_spec, ObjectShape.mk.sizeOf_spec] at smaller ⊢
      omega
  | array item =>
    cases List.mem_singleton.1 member
    simp
  | union members =>
    have smaller : sizeOf n < sizeOf members := List.sizeOf_lt_of_mem member
    simp only [Shape.union.sizeOf_spec]
    omega
  | linked declaration schema =>
    simp only [Shape.linked.sizeOf_spec]
    rcases List.mem_cons.1 member with rfl | member
    · omega
    · cases List.mem_singleton.1 member
      omega
  | _ => cases member

theorem Node.sizeOf_child {n c : Node} (member : c ∈ n.children) : sizeOf c < sizeOf n := by
  have smaller := Shape.sizeOf_child member
  obtain ⟨shape, annotations, optionality, restriction, misuse⟩ := n
  simp only [Node.mk.sizeOf_spec] at smaller ⊢
  omega

inductive Node.Part : Node → Node → Prop
  | self : Part n n
  | inside (child : c ∈ n.children) (part : Part x c) : Part x n

theorem Node.Part.trans {x y n : Node} (first : x.Part y) (second : y.Part n) : x.Part n := by
  induction second with
  | self => exact first
  | inside child _ ih => exact .inside child (ih first)

def Node.Each (A : Node → Prop) (n : Node) : Prop := ∀ x, Part x n → A x

theorem Node.each_iff {A : Node → Prop} {n : Node} :
    n.Each A ↔ A n ∧ ∀ c ∈ n.children, c.Each A := by
  constructor
  · intro all
    exact ⟨all n .self, fun c child x part => all x (.inside child part)⟩
  · rintro ⟨here, below⟩ x part
    cases part with
    | self => exact here
    | inside child part => exact below _ child x part

theorem Node.each_of_bare {A : Node → Prop} {n : Node} (bare : n.children = []) (here : A n) : n.Each A := by
  refine Node.each_iff.2 ⟨here, fun c child => ?_⟩
  rw [bare] at child
  cases child

-- A property of trees may be proved from the children up.
theorem Node.tree_induction {motive : Node → Prop}
    (node : ∀ n, (∀ c ∈ n.children, motive c) → motive n) (n : Node) : motive n :=
  node n fun c _ => tree_induction node c
termination_by sizeOf n
decreasing_by exact Node.sizeOf_child ‹_›

end TwinShape
