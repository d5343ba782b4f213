import Mathlib
import TwinShape.Node.Builder
import TwinShape.Proofs.Projection.Presence
import TwinShape.Proofs.Registry.Resolution
import TwinShape.Proofs.Schema.Simulation
import TwinShape.Schema.Evaluator

namespace TwinShape

inductive Shape.LeafAlike : Shape Node → Shape Node → Prop
  | enumeration (values : List Literal) (naming naming' : Option Naming) :
      LeafAlike (.enumeration values naming) (.enumeration values naming')
  | raw {d d' : Option (Marked String)} {s t : Option (Marked Json)}
      (same : s.map (·.content) = t.map (·.content)) : LeafAlike (.raw d s) (.raw d' t)
  | equal (leaf : s.isLeaf) : LeafAlike s s

inductive Property.Alike (R : Node → Node → Prop) : Property Node → Property Node → Prop
  | intro (name : String) (restriction : Restriction) (value : R a b) :
      Alike R ⟨name, a, restriction⟩ ⟨name, b, restriction⟩

-- Shapes that are alike once properties, members and parents for internal use only are taken
-- out, if what is inside of them is.
inductive Shape.Alike (R : Node → Node → Prop) : Shape Node → Shape Node → Prop
  | object
      (properties : Aligned (Property.outside .external) (Property.outside .external) (Property.Alike R) ps qs)
      (additional : Additional.Both R a b)
      (parents : Aligned (Node.outside .external) (Node.outside .external) R ms ns) :
      Alike R (.object ⟨ps, a, ms⟩) (.object ⟨qs, b, ns⟩)
  | array (item : R m n) : Alike R (.array m) (.array n)
  | union (members : Aligned (Node.outside .external) (Node.outside .external) R ms ns) :
      Alike R (.union ms) (.union ns)
  | reference (name : String) : Alike R (.reference name) (.reference name)
  | linked (declaration : R m n) (schema : R m' n') : Alike R (.linked m m') (.linked n n')
  | leaf (shapes : s.LeafAlike t) : Alike R s t

-- Nodes with the same external content. What is for internal use only is arbitrary.
inductive ExternallyAlike : Node → Node → Prop
  | hidden (first : m.restriction = .only .internal) (second : n.restriction = .only .internal) :
      ExternallyAlike m n
  | shown (restriction : m.restriction = n.restriction) (texts : m.SameTexts n)
      (shapes : Shape.Alike ExternallyAlike m.shape n.shape) : ExternallyAlike m n

inductive SchemaAlike : Node → Node → Prop
  | leaf (texts : m.SameTexts n) (shapes : m.shape.LeafAlike n.shape) : SchemaAlike m n
  | inner (texts : m.SameTexts n) (shapes : AfterProjection SchemaAlike m.shape n.shape) : SchemaAlike m n

theorem Shape.LeafAlike.leaves {s t : Shape Node} (alike : s.LeafAlike t) : s.isLeaf ∧ t.isLeaf := by
  cases alike with
  | enumeration | raw => exact ⟨rfl, rfl⟩
  | equal leaf => exact ⟨leaf, leaf⟩

theorem SchemaAlike.texts {m n : Node} (alike : SchemaAlike m n) : m.SameTexts n := by
  cases alike with
  | leaf texts | inner texts => exact texts

theorem SchemaAlike.written {m n : Node} (alike : SchemaAlike m n) : WrittenAlike SchemaAlike m.shape n.shape := by
  obtain ⟨s, annotations, optionality, restriction, misuse⟩ := m
  obtain ⟨t, annotations', optionality', restriction', misuse'⟩ := n
  cases alike with
  | leaf texts shapes =>
    cases shapes with
    | enumeration => exact .enumeration
    | raw same => exact .raw same
    | equal leaf => exact .equal leaf
  | inner texts shapes =>
    cases shapes with
    | object properties additional =>
      exact .object (List.Forall₂.imp (fun _ _ both => ⟨both.name, both.value⟩) properties) additional
    | array item => exact .array item
    | union some_ members => exact .union members
    | reference name => exact .reference name
    | linked declaration schema => exact .linked schema

theorem ExternallyAlike.includes {m n : Node} (alike : ExternallyAlike m n) :
    m.restriction.includes .external = n.restriction.includes .external := by
  cases alike with
  | hidden first second => rw [first, second]
  | shown restriction => rw [restriction]

theorem ExternallyAlike.shown_of_includes {m n : Node} (alike : ExternallyAlike m n)
    (kept : m.restriction.includes .external) : m.SameTexts n ∧ Shape.Alike ExternallyAlike m.shape n.shape := by
  cases alike with
  | hidden first second =>
    rw [first] at kept
    cases kept
  | shown restriction texts shapes => exact ⟨texts, shapes⟩

theorem Aligned.imp {drop drop' R R' : _} {as bs : List α} (aligned : Aligned drop drop R as bs)
    (dropped : ∀ a, drop a → drop' a) (related : ∀ a b, R a b → R' a b) : Aligned drop' drop' R' as bs := by
  induction aligned with
  | nil => exact .nil
  | both head _ ih => exact .both (related _ _ head) ih
  | left out _ ih => exact .left (dropped _ out) ih
  | right out _ ih => exact .right (dropped _ out) ih

theorem Shape.Alike.before {R : Node → Node → Prop} {s t : Shape Node} (alike : Shape.Alike R s t) :
    BeforeProjection .external .external False (fun _ => True) R s t := by
  cases alike with
  | object properties additional parents =>
    refine .object (properties.imp (fun _ out => out) ?_) additional
      (parents.imp (fun _ out => ⟨id, out⟩) fun _ _ both => both)
    rintro _ _ ⟨name, restriction, value⟩
    exact ⟨rfl, rfl, value⟩
  | array item => exact .array item
  | union members => exact .union members
  | reference name => exact .reference trivial
  | linked declaration schema => exact .linked declaration schema
  | leaf shapes => exact .leaf shapes.leaves.1 shapes.leaves.2

theorem Shape.Alike.leaf_alike {R : Node → Node → Prop} {s t : Shape Node} (alike : Shape.Alike R s t)
    (leaf : s.isLeaf) : s.LeafAlike t := by
  cases alike with
  | leaf shapes => exact shapes
  | _ => cases leaf

def SameExternally (m n : Memory) : Prop :=
  ∀ name, m.recallPresence (name, .external) = n.recallPresence (name, .external)

def Registry.ExternallyAlike (r₁ r₂ : Registry) : Prop :=
  List.Forall₂ (fun d e => d.name = e.name ∧ TwinShape.ExternallyAlike d.node e.node) r₁.definitions r₂.definitions

namespace Registry
variable {r₁ r₂ : Registry}

theorem ExternallyAlike.find? (alike : r₁.ExternallyAlike r₂) (name : String) :
    Option.Rel TwinShape.ExternallyAlike (r₁.find? name) (r₂.find? name) := by
  unfold ExternallyAlike at alike
  unfold Registry.find?
  generalize r₁.definitions = ds, r₂.definitions = es at alike
  induction alike with
  | nil => exact .none
  | @cons d e _ _ head _ ih =>
    obtain ⟨named, nodes⟩ := head
    rw [List.find?_cons, List.find?_cons, named]
    cases e.name == name with
    | true => exact .some nodes
    | false => exact ih

theorem ExternallyAlike.resolve (alike : r₁.ExternallyAlike r₂) (referencing name : String) :
    Alongside False SameExternally (fun a b => TwinShape.ExternallyAlike a.val b.val)
      (r₁.resolveFrom referencing name) (r₂.resolveFrom referencing name) := by
  intro m n same
  have after : SameExternally (r₁.resolveFrom referencing name m).2 (r₂.resolveFrom referencing name n).2 := by
    intro other
    rw [recall_of_same (resolveFrom_same _ _ _), recall_of_same (resolveFrom_same _ _ _)]
    exact same other
  revert after
  rcases r₁.resolveFrom referencing name m with ⟨e | a, m'⟩ <;>
    rcases r₂.resolveFrom referencing name n with ⟨f | b, n'⟩ <;> intro after
  · exact False.elim
  · exact id
  · exact id
  · have nodes := alike.find? name
    rw [a.property, b.property] at nodes
    cases nodes with
    | some nodes => exact ⟨nodes, after⟩

def projecting (alike : r₁.ExternallyAlike r₂) : Simulation r₁ r₂ .external .external where
  strict := False
  named _ := True
  source := TwinShape.ExternallyAlike
  result := SchemaAlike
  view := Probe.Seen SameExternally
  includes alike := alike.includes
  referenceName := False.elim
  shapes alike kept := (alike.shown_of_includes kept).2.before
  leaf alike kept leaf _ := by
    have ⟨texts, shapes⟩ := alike.shown_of_includes kept
    exact .leaf ⟨texts.title, texts.description, texts.examples, texts.deprecated, texts.pattern, texts.optionality⟩
      (shapes.leaf_alike leaf)
  inner alike kept _ after _ := by
    have ⟨texts, _⟩ := alike.shown_of_includes kept
    exact .inner ⟨texts.title, texts.description, texts.examples, texts.deprecated, texts.pattern, texts.optionality⟩
      after
  opened := by
    intro m n alike
    cases alike with
    | leaf texts shapes => exact .inr ⟨shapes.leaves.1, shapes.leaves.2, False.elim⟩
    | inner texts shapes => exact .inl shapes
  same := False.elim
  resolve _ := Probe.ask_run (alike.resolve _ _)

theorem same_remember {m n : Memory} (same : SameExternally m n) (name : String) (present : Bool) :
    SameExternally (m.rememberPresence (name, .external) present) (n.rememberPresence (name, .external) present) := by
  intro other
  rw [Memory.recall_remember, Memory.recall_remember, same other]

-- Whatever they know alike, both registries write the same schemas.
def writing (alike : r₁.ExternallyAlike r₂) : SchemaSimulation r₁ r₂ where
  strict := False
  source := TwinShape.ExternallyAlike
  result := SchemaAlike
  memory := SameExternally
  shapes nodes := nodes.written
  texts nodes := nodes.texts
  resolve := alike.resolve _ _
  project nodes :=
    let recalls : (projecting alike).Recalls :=
      ⟨SameExternally, Iff.rfl, fun _ same => same _, fun _ same => same_remember same _ _⟩
    recalls.project_run nodes _

-- A schema document shows nothing that is for internal use only.
theorem schema_of_alike {r₁ r₂ : Registry} (alike : r₁.ExternallyAlike r₂) (options : SchemaOptions)
    (first : (r₁.schema options .blank).1 = .ok document₁) (second : (r₂.schema options .blank).1 = .ok document₂) :
    document₁ = document₂ := by
  have names : r₁.names = r₂.names := by
    unfold Registry.names
    unfold Registry.ExternallyAlike at alike
    generalize r₁.definitions = ds, r₂.definitions = es at alike
    induction alike with
    | nil => rfl
    | cons head _ ih => exact congrArg₂ List.cons head.1 ih
  have agree := (writing alike).schemaFor_run r₁.names options .blank .blank fun _ => rfl
  unfold Registry.schema at first second
  rw [← names] at second
  revert first second agree
  rcases r₁.schemaFor r₁.names options .blank with ⟨e | a, m⟩ <;>
    rcases r₂.schemaFor r₁.names options .blank with ⟨f | b, n⟩ <;> rintro ⟨⟩ ⟨⟩ agree
  exact agree.1

def openedA : Registry :=
  ⟨[⟨"A", .ofProperties [.of "next" (.referenceTo "A"), .onlyIn (.of "state" .string) .internal]⟩], by decide, .builtIn⟩

def openedB : Registry :=
  ⟨[⟨"A", .ofProperties [.of "count" (Node.integer.onlyIn .internal), .of "next" (.referenceTo "A")]⟩], by decide, .builtIn⟩

theorem opened_alike : openedA.ExternallyAlike openedB := by
  have next : TwinShape.ExternallyAlike (.referenceTo "A") (.referenceTo "A") :=
    .shown rfl ⟨rfl, rfl, rfl, rfl, rfl, rfl⟩ (.reference "A")
  refine .cons ⟨rfl, .shown rfl ⟨rfl, rfl, rfl, rfl, rfl, rfl⟩ ?_⟩ .nil
  refine .object ?_ .forbidden .nil
  exact .right (.inr rfl) (.both (.intro "next" .unrestricted next) (.left (.inl rfl) .nil))

theorem schema_of_opened : ∃ a b, (openedA.schema .plain .blank).1 = .ok a ∧
    (openedB.schema .plain .blank).1 = .ok b ∧ a = b := by
  have first : (openedA.schema .plain .blank).1.toOption.isSome = true := by cbv
  have second : (openedB.schema .plain .blank).1.toOption.isSome = true := by cbv
  cases written : (openedA.schema .plain .blank).1 with
  | error e =>
    rw [written] at first
    cases first
  | ok a =>
    cases written' : (openedB.schema .plain .blank).1 with
    | error e =>
      rw [written'] at second
      cases second
    | ok b => exact ⟨a, b, rfl, rfl, schema_of_alike opened_alike .plain written written'⟩

end Registry
end TwinShape
