import TwinShape.Node.Equality
import TwinShape.Proofs.Json.Settled
import TwinShape.Proofs.Node.Tree

namespace TwinShape

def Node.Settled (n : Node) : Prop :=
  (∀ j ∈ n.annotations.examples, j.Settled) ∧ ∀ j, n.default? = some j → j.Settled

theorem sameOption_self {eq : α → α → Bool} {a : Option α} (each : ∀ b, a = some b → eq b b = true) :
    sameOption eq a a = true := by
  cases a with
  | none => rfl
  | some b => exact each b rfl

theorem sameList_self {eq : α → α → Bool} {l : List α} (each : ∀ a ∈ l, eq a a = true) : sameList eq l l = true := by
  induction l with
  | nil => rfl
  | cons a rest ih =>
    rw [sameList, each a List.mem_cons_self, ih fun b member => each b (List.mem_cons_of_mem _ member)]
    rfl

theorem Literal.same_self (l : Literal) : l.same l = true := by
  cases l with
  | null => rfl
  | bool | int | float | string => exact beq_self_eq_true _

theorem Annotations.same_self {a : Annotations} (examples : ∀ j ∈ a.examples, j.Settled) : a.same a = true := by
  unfold Annotations.same
  rw [sameList_self fun j member => (examples j member).same_self]
  simp only [beq_self_eq_true, Bool.and_self]

theorem Optionality.same_self {o : Optionality} (default : ∀ j, o = .optional (some j) → j.Settled) :
    o.same o = true := by
  cases o with
  | required => rfl
  | optional d => exact sameOption_self fun j found => (default j (congrArg Optionality.optional found)).same_self

theorem sameNodes_self {nodes : List Node} (each : ∀ n ∈ nodes, n.same n = true) : sameNodes nodes nodes = true := by
  induction nodes with
  | nil => rw [sameNodes]
  | cons n rest ih =>
    rw [sameNodes, each n List.mem_cons_self, ih fun m member => each m (List.mem_cons_of_mem _ member)]
    rfl

theorem sameProperties_self {properties : List (Property Node)}
    (each : ∀ p ∈ properties, p.value.same p.value = true) : sameProperties properties properties = true := by
  induction properties with
  | nil => rw [sameProperties]
  | cons p rest ih =>
    obtain ⟨name, value, restriction⟩ := p
    have here : value.same value = true := each _ List.mem_cons_self
    rw [sameProperties, here, ih fun q member => each q (List.mem_cons_of_mem _ member)]
    simp only [beq_self_eq_true, Bool.and_self]

theorem sameAdditional_self {additional : Additional Node} (each : ∀ n ∈ additional.nodes, n.same n = true) :
    sameAdditional additional additional = true := by
  cases additional with
  | forbidden | allowed => rw [sameAdditional]
  | shape n =>
    rw [sameAdditional]
    exact each n List.mem_cons_self

theorem sameShape_self {s : Shape Node} (each : ∀ c ∈ s.children, c.same c = true) : sameShape s s = true := by
  cases s with
  | object o =>
    obtain ⟨properties, additional, parents⟩ := o
    have values := fun p (member : p ∈ properties) =>
      each _ (List.mem_append_left _ (List.mem_append_left _ (List.mem_map_of_mem (f := (·.value)) member)))
    have further := fun n member => each n (List.mem_append_left _ (List.mem_append_right _ member))
    have parents := fun n member => each n (List.mem_append_right _ member)
    rw [sameShape, sameProperties_self values, sameAdditional_self further, sameNodes_self parents]
    rfl
  | array item =>
    rw [sameShape]
    exact each item List.mem_cons_self
  | union members =>
    rw [sameShape]
    exact sameNodes_self each
  | linked declaration schema =>
    rw [sameShape, each _ List.mem_cons_self, each _ (List.mem_cons_of_mem _ List.mem_cons_self)]
    rfl
  | enumeration values naming =>
    rw [sameShape, sameList_self fun l _ => l.same_self]
    exact sameOption_self fun f _ => beq_self_eq_true f.mark
  | constant value =>
    rw [sameShape]
    exact value.same_self
  | reference name =>
    rw [sameShape]
    exact beq_self_eq_true name
  | raw declaration schema =>
    rw [sameShape]
    rw [sameOption_self fun text _ => beq_self_eq_true text.mark, sameOption_self fun j _ => beq_self_eq_true j.mark]
    rfl
  | imported name module =>
    rw [sameShape, beq_self_eq_true, beq_self_eq_true]
    rfl
  | _ => rw [sameShape]

theorem Node.same_self {n : Node} (settled : n.Settled) (each : ∀ c ∈ n.children, c.same c = true) :
    n.same n = true := by
  obtain ⟨shape, annotations, optionality, restriction, misuse⟩ := n
  have default : ∀ j, optionality = .optional (some j) → j.Settled := by
    rintro j rfl
    exact settled.2 j rfl
  rw [Node.same, sameShape_self each, Annotations.same_self settled.1, Optionality.same_self default]
  simp only [beq_self_eq_true, Bool.and_self]

theorem Node.same_of_settled {n : Node} (settled : n.Each Node.Settled) : n.same n = true := by
  induction n using Node.tree_induction with
  | node n ih =>
    have ⟨here, below⟩ := Node.each_iff.1 settled
    exact Node.same_self here fun c child => ih c child (below c child)

end TwinShape
