import TwinShape.Projection.Basic
import TwinShape.Proofs.Agreement
import TwinShape.Proofs.Node.Tree

namespace TwinShape

def Node.rebuilt (n : Node) (shape : Shape Node) : Node :=
  ⟨shape, n.annotations, n.optionality, .unrestricted, []⟩

def Node.outside (v : Variant) (n : Node) : Prop := n.restriction.includes v = false

def Property.outside (v : Variant) (p : Property Node) : Prop :=
  p.restriction.includes v = false ∨ p.value.outside v

-- Two lists match entry by entry once some of the entries that may be dropped are.
inductive Aligned (drop₁ drop₂ : α → Prop) (R : α → α → Prop) : List α → List α → Prop
  | nil : Aligned drop₁ drop₂ R [] []
  | both (head : R a b) (rest : Aligned drop₁ drop₂ R as bs) : Aligned drop₁ drop₂ R (a :: as) (b :: bs)
  | left (dropped : drop₁ a) (rest : Aligned drop₁ drop₂ R as bs) : Aligned drop₁ drop₂ R (a :: as) bs
  | right (dropped : drop₂ b) (rest : Aligned drop₁ drop₂ R as bs) : Aligned drop₁ drop₂ R as (b :: bs)

inductive Additional.Both (R : α → β → Prop) : Additional α → Additional β → Prop
  | forbidden : Both R .forbidden .forbidden
  | allowed : Both R .allowed .allowed
  | shape (nodes : R a b) : Both R (.shape a) (.shape b)

-- Shapes of two runs before projection. Parents may only be dropped where it does not
-- matter which run fails, since a dropped parent can still close a cycle of names.
inductive BeforeProjection (v₁ v₂ : Variant) (strict : Prop) (named : String → Prop)
    (source : Node → Node → Prop) : Shape Node → Shape Node → Prop
  | object
      (properties : Aligned (Property.outside v₁) (Property.outside v₂)
        (fun p q => p.name = q.name ∧ p.restriction.includes v₁ = q.restriction.includes v₂ ∧
          source p.value q.value) ps qs)
      (additional : Additional.Both source a b)
      (parents : Aligned (fun n => ¬strict ∧ n.outside v₁) (fun n => ¬strict ∧ n.outside v₂) source ms ns) :
      BeforeProjection v₁ v₂ strict named source (.object ⟨ps, a, ms⟩) (.object ⟨qs, b, ns⟩)
  | array (item : source m n) : BeforeProjection v₁ v₂ strict named source (.array m) (.array n)
  | union (members : Aligned (Node.outside v₁) (Node.outside v₂) source ms ns) :
      BeforeProjection v₁ v₂ strict named source (.union ms) (.union ns)
  | reference (known : named name) :
      BeforeProjection v₁ v₂ strict named source (.reference name) (.reference name)
  | linked (declaration : source m n) (schema : source m' n') :
      BeforeProjection v₁ v₂ strict named source (.linked m m') (.linked n n')
  | leaf (first : s.isLeaf) (second : t.isLeaf) : BeforeProjection v₁ v₂ strict named source s t

theorem BeforeProjection.referenceName {m n : Node}
    (before : BeforeProjection v₁ v₂ strict named source m.shape n.shape)
    (none_ : m.referenceName? = none) : n.referenceName? = none := by
  obtain ⟨s, annotations, optionality, restriction, misuse⟩ := m
  obtain ⟨t, annotations', optionality', restriction', misuse'⟩ := n
  cases before with
  | reference known => exact none_
  | leaf first second => cases t <;> first | rfl | exact absurd second Bool.false_ne_true
  | _ => rfl

theorem BeforeProjection.of_reference (before : BeforeProjection v₁ v₂ strict named source (.reference name) t) :
    named name ∧ t = .reference name := by
  cases before with
  | reference known => exact ⟨known, rfl⟩
  | leaf first => exact absurd first Bool.false_ne_true

inductive Property.Both (R : Node → Node → Prop) : Property Node → Property Node → Prop
  | intro (name : String) (value : R a b) : Both R ⟨name, a, .unrestricted⟩ ⟨name, b, .unrestricted⟩

theorem Property.Both.name {R : Node → Node → Prop} {p q : Property Node} (both : Property.Both R p q) :
    p.name = q.name := by
  cases both
  rfl

theorem Property.Both.value {R : Node → Node → Prop} {p q : Property Node} (both : Property.Both R p q) :
    R p.value q.value := by
  cases both with
  | intro _ value => exact value

inductive AfterProjection (result : Node → Node → Prop) : Shape Node → Shape Node → Prop
  | object (properties : List.Forall₂ (Property.Both result) ps qs) (additional : Additional.Both result a b) :
      AfterProjection result (.object ⟨ps, a, []⟩) (.object ⟨qs, b, []⟩)
  | array (item : result m n) : AfterProjection result (.array m) (.array n)
  | union (some_ : ms ≠ []) (members : List.Forall₂ result ms ns) :
      AfterProjection result (.union ms) (.union ns)
  | reference (name : String) : AfterProjection result (.reference name) (.reference name)
  | linked (declaration : result m n) (schema : result m' n') :
      AfterProjection result (.linked m m') (.linked n n')

def Shape.Distinct (s : Shape Node) : Prop := ∀ o, s = .object o → (o.properties.map (·.name)).Nodup

-- Two runs of a projection, possibly on different registries and to different variants.
-- `source` relates the nodes that are projected and `result` what comes out; `view` relates
-- what the runs know. All else is what keeps the relations up.
structure Simulation (r₁ r₂ : Registry) (v₁ v₂ : Variant) where
  strict : Prop
  named : String → Prop
  source : Node → Node → Prop
  result : Node → Node → Prop
  view : Trail → Trail → Prop
  includes : source m n → m.restriction.includes v₁ = n.restriction.includes v₂
  -- A parent that does not exist in the variant still takes part in cycles of names.
  referenceName : strict → source m n → m.referenceName? = n.referenceName?
  shapes : source m n → m.restriction.includes v₁ →
    BeforeProjection v₁ v₂ strict named source m.shape n.shape
  leaf : source m n → m.restriction.includes v₁ → m.shape.isLeaf → n.shape.isLeaf →
    result (m.rebuilt m.shape) (n.rebuilt n.shape)
  inner : source m n → m.restriction.includes v₁ → m.shape.isLeaf = false →
    AfterProjection result s t → s.Distinct → result (m.rebuilt s) (n.rebuilt t)
  opened : result m n → AfterProjection result m.shape n.shape ∨
    m.shape.isLeaf ∧ n.shape.isLeaf ∧ (strict → m.kindName = n.kindName)
  same : strict → result a b → result a' b' → a.same a' = b.same b'
  resolve : named name → Alongside strict view (fun a b => source a.val b.val)
    (Probe.ask (r₁.resolveFrom definition name)) (Probe.ask (r₂.resolveFrom definition name))

end TwinShape
