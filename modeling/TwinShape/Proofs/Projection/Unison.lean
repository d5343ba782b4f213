import TwinShape.Proofs.Projection.Presence
import TwinShape.Proofs.Registry.Resolution

namespace TwinShape

def Shape.Tidy : Shape Node → Prop
  | .object o =>
    (o.properties.map (·.name)).Nodup ∧ (∀ p ∈ o.properties, p.restriction = .unrestricted) ∧ o.parents = []
  | .union members => members ≠ []
  | _ => True

theorem Shape.tidy_leaf {s : Shape Node} (leaf : s.isLeaf) : s.Tidy := by
  cases s <;> first | exact absurd leaf Bool.false_ne_true | trivial

-- Nodes of one registry that look the same to both runs. `kept` is what can be said of
-- every node that comes out.
structure Unison (r : Registry) (v₁ v₂ : Variant) where
  named : String → Prop
  good : Node → Prop
  kept : Node → Prop
  includes : good n → n.restriction.includes v₁ = n.restriction.includes v₂
  property : good n → n.shape = .object o → p ∈ o.properties →
    p.restriction.includes v₁ = p.restriction.includes v₂
  child : good n → c ∈ n.children → good c
  reference : good n → n.shape = .reference name → named name
  leaf : good n → n.shape.isLeaf → kept (n.rebuilt n.shape)
  inner : good n → n.shape.isLeaf = false → s.isLeaf = false → s.Tidy →
    (∀ c ∈ s.children, kept c) → kept (n.rebuilt s)

def Unison.plain (r : Registry) (v : Variant) : Unison r v v where
  named _ := True
  good _ := True
  kept _ := True
  includes _ := rfl
  property _ _ _ := rfl
  child _ _ := trivial
  reference _ _ := trivial
  leaf _ _ := trivial
  inner _ _ _ _ _ := trivial

theorem aligned_self {drop₁ drop₂ : α → Prop} {R : α → α → Prop} (l : List α)
    (each : ∀ a ∈ l, R a a) : Aligned drop₁ drop₂ R l l := by
  induction l with
  | nil => exact .nil
  | cons a rest ih =>
    exact .both (each a List.mem_cons_self) (ih fun b member => each b (List.mem_cons_of_mem _ member))

theorem eq_of_forall₂ {kept : α → Prop} {as bs : List α}
    (both : List.Forall₂ (fun a b => a = b ∧ kept a) as bs) : as = bs ∧ ∀ a ∈ as, kept a := by
  induction both with
  | nil => exact ⟨rfl, nofun⟩
  | cons head _ ih =>
    obtain ⟨rfl, here⟩ := head
    obtain ⟨rfl, rest⟩ := ih
    refine ⟨rfl, fun c member => ?_⟩
    rcases List.mem_cons.1 member with rfl | member
    · exact here
    · exact rest c member

theorem Additional.eq_of_both {kept : Node → Prop} {a b : Additional Node}
    (both : Additional.Both (fun m n => m = n ∧ kept m) a b) : a = b ∧ ∀ c ∈ a.nodes, kept c := by
  cases both with
  | forbidden | allowed => exact ⟨rfl, nofun⟩
  | shape nodes =>
    obtain ⟨rfl, here⟩ := nodes
    exact ⟨rfl, fun c member => List.mem_singleton.1 member ▸ here⟩

theorem properties_eq_of_both {kept : Node → Prop} {ps qs : List (Property Node)}
    (both : List.Forall₂ (Property.Both fun m n => m = n ∧ kept m) ps qs) :
    ps = qs ∧ (∀ c ∈ ps.map (·.value), kept c) ∧ ∀ p ∈ ps, p.restriction = .unrestricted := by
  have same : List.Forall₂ (fun p q => p = q ∧ kept p.value ∧ p.restriction = .unrestricted) ps qs := by
    refine List.Forall₂.imp ?_ both
    rintro _ _ ⟨name, rfl, here⟩
    exact ⟨rfl, here, rfl⟩
  obtain ⟨rfl, each⟩ := eq_of_forall₂ same
  refine ⟨rfl, fun c member => ?_, fun p member => (each p member).2⟩
  obtain ⟨p, inside, rfl⟩ := List.mem_map.1 member
  exact (each p inside).1

theorem AfterProjection.eq_of_both {kept : Node → Prop} {s t : Shape Node} (distinct : s.Distinct)
    (after : AfterProjection (fun m n => m = n ∧ kept m) s t) :
    s = t ∧ s.isLeaf = false ∧ s.Tidy ∧ ∀ c ∈ s.children, kept c := by
  cases after with
  | object properties additional =>
    obtain ⟨rfl, values, free⟩ := properties_eq_of_both properties
    obtain ⟨rfl, further⟩ := Additional.eq_of_both additional
    refine ⟨rfl, rfl, ⟨distinct _ rfl, free, rfl⟩, fun c member => ?_⟩
    rcases List.mem_append.1 member with member | member
    · rcases List.mem_append.1 member with member | member
      · exact values c member
      · exact further c member
    · cases member
  | array item =>
    obtain ⟨rfl, here⟩ := item
    exact ⟨rfl, rfl, trivial, fun c member => List.mem_singleton.1 member ▸ here⟩
  | union some_ members =>
    obtain ⟨rfl, each⟩ := eq_of_forall₂ members
    exact ⟨rfl, rfl, some_, each⟩
  | reference name => exact ⟨rfl, rfl, trivial, nofun⟩
  | linked declaration schema =>
    obtain ⟨rfl, first⟩ := declaration
    obtain ⟨rfl, second⟩ := schema
    refine ⟨rfl, rfl, trivial, fun c member => ?_⟩
    rcases List.mem_cons.1 member with rfl | member
    · exact first
    · exact List.mem_singleton.1 member ▸ second

theorem forall₂_self {R : α → α → Prop} {l : List α} (each : ∀ a ∈ l, R a a) : List.Forall₂ R l l :=
  List.forall₂_same.2 each

theorem AfterProjection.self {R : Node → Node → Prop} {s : Shape Node} (inner : s.isLeaf = false)
    (tidy : s.Tidy) (each : ∀ c ∈ s.children, R c c) : AfterProjection R s s := by
  cases s with
  | object o =>
    obtain ⟨properties, additional, parents⟩ := o
    obtain ⟨_, free, rfl⟩ := tidy
    refine .object (forall₂_self fun p member => ?_) ?_
    · obtain ⟨name, value, restriction⟩ := p
      obtain rfl : restriction = .unrestricted := free _ member
      refine .intro name ?_
      exact each _ (List.mem_append_left _ (List.mem_append_left _ (List.mem_map_of_mem member)))
    · cases additional with
      | forbidden => exact .forbidden
      | allowed => exact .allowed
      | shape only =>
        exact .shape (each _ (List.mem_append_left _ (List.mem_append_right _ (List.mem_singleton.2 rfl))))
  | array item => exact .array (each _ List.mem_cons_self)
  | union members => exact .union tidy (forall₂_self each)
  | reference name => exact .reference name
  | linked declaration schema =>
    exact .linked (each _ List.mem_cons_self) (each _ (List.mem_cons_of_mem _ List.mem_cons_self))
  | _ => cases inner

namespace Unison
variable {r : Registry} {v₁ v₂ : Variant} (u : Unison r v₁ v₂)

theorem shapes {n : Node} (good : u.good n) :
    BeforeProjection v₁ v₂ True u.named (fun m n => m = n ∧ u.good m) n.shape n.shape := by
  have child : ∀ c ∈ n.shape.children, c = c ∧ u.good c := fun c member => ⟨rfl, u.child good member⟩
  have property := fun o p => u.property good (o := o) (p := p)
  have reference := fun name (shape : n.shape = .reference name) => u.reference good shape
  obtain ⟨shape, annotations, optionality, restriction, misuse⟩ := n
  dsimp only at child property reference ⊢
  cases shape with
  | object o =>
    obtain ⟨properties, additional, parents⟩ := o
    refine .object (aligned_self _ fun p member => ⟨rfl, property _ p rfl member, ?_⟩) ?_
      (aligned_self _ fun m member => child m (List.mem_append_right _ member))
    · exact child _ (List.mem_append_left _ (List.mem_append_left _ (List.mem_map_of_mem member)))
    · cases additional with
      | forbidden => exact .forbidden
      | allowed => exact .allowed
      | shape only =>
        exact .shape (child _ (List.mem_append_left _ (List.mem_append_right _ (List.mem_singleton.2 rfl))))
  | array item => exact .array (child _ List.mem_cons_self)
  | union members => exact .union (aligned_self _ child)
  | reference name => exact .reference (reference name rfl)
  | linked declaration schema =>
    exact .linked (child _ List.mem_cons_self) (child _ (List.mem_cons_of_mem _ List.mem_cons_self))
  | _ => exact .leaf rfl rfl

def Out (n : Node) : Prop := n.Each fun x => x.shape.Tidy ∧ u.kept x

theorem out_leaf {n : Node} (good : u.good n) (leaf : n.shape.isLeaf) : u.Out (n.rebuilt n.shape) := by
  have none_ : (n.rebuilt n.shape).children = [] := Shape.children_leaf leaf
  refine Node.each_iff.2 ⟨⟨Shape.tidy_leaf leaf, u.leaf good leaf⟩, ?_⟩
  rw [none_]
  exact nofun

def simulation (view : Trail → Trail → Prop)
    (resolve : ∀ {name definition}, u.named name →
      Alongside True view (fun a b => a.val = b.val ∧ u.good a.val)
        (Probe.ask (r.resolveFrom definition name)) (Probe.ask (r.resolveFrom definition name))) :
    Simulation r r v₁ v₂ where
  strict := True
  named := u.named
  source m n := m = n ∧ u.good m
  result m n := m = n ∧ u.Out m
  view := view
  includes := fun ⟨same, good⟩ => same ▸ u.includes good
  referenceName := fun _ ⟨same, _⟩ => same ▸ rfl
  shapes := by
    rintro m _ ⟨rfl, good⟩ _
    exact u.shapes good
  leaf := by
    rintro m _ ⟨rfl, good⟩ _ leaf _
    exact ⟨rfl, u.out_leaf good leaf⟩
  inner := by
    rintro m _ s t ⟨rfl, good⟩ _ inner after distinct
    obtain ⟨rfl, inner', tidy, each⟩ := after.eq_of_both distinct
    have kept := u.inner good inner inner' tidy fun c member => (each c member c .self).2
    exact ⟨rfl, Node.each_iff.2 ⟨⟨tidy, kept⟩, each⟩⟩
  opened := by
    rintro m _ ⟨rfl, out⟩
    have ⟨⟨tidy, _⟩, each⟩ := Node.each_iff.1 out
    cases leaf : m.shape.isLeaf with
    | true => exact .inr ⟨rfl, rfl, fun _ => rfl⟩
    | false => exact .inl (.self leaf tidy fun c member => ⟨rfl, each c member⟩)
  same := by
    rintro a _ a' _ _ ⟨rfl, _⟩ ⟨rfl, _⟩
    rfl
  resolve := resolve

end Unison
end TwinShape
