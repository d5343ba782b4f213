import TwinShape.Proofs.Json.Settled
import TwinShape.Proofs.Projection.Blame
import TwinShape.Proofs.Projection.Growth
import TwinShape.Proofs.Projection.Verdict

namespace TwinShape

-- Shapes that hold nodes in one place only: neither references nor the two sides of a link.
def Shape.isComposite : Shape Node → Bool
  | .object _ | .array _ | .union _ => true
  | _ => false

theorem Shape.isLeaf_of_composite {s : Shape Node} (composite : s.isComposite) : s.isLeaf = false := by
  cases s with
  | object | array | union => rfl
  | _ => cases composite

def Shape.isLinked : Shape Node → Bool
  | .linked .. => true
  | _ => false

-- Shapes that both kinds of output know: nothing raw, and no link.
def Shape.isCommon : Shape Node → Bool
  | .raw .. | .linked .. => false
  | _ => true

def Node.RefersTo (P : String → Prop) (n : Node) : Prop :=
  n.Each fun x => ∀ name, x.shape = .reference name → P name

namespace Merge
variable {A : Node → Prop} {m m' : Merge}

def Holds (A : Node → Prop) (m : Merge) : Prop := ∀ entry ∈ m, A entry.2.1.value

theorem Holds.set (held : m.Holds A) {p : Property Node} (value : A p.value) (from_ : Option Nat) :
    Merge.Holds A (Table.set m p.name (p, from_)) := by
  intro entry member
  rcases Table.mem_set member with rfl | member
  · exact value
  · exact held entry member

theorem Holds.inherit (held : m.Holds A) {origin : Nat} {ps : List (Property Node)} (values : ∀ p ∈ ps, A p.value)
    (merged : m.inherit origin ps = .ok m') : m'.Holds A := by
  induction ps generalizing m with
  | nil => cases merged; exact held
  | cons p rest ih =>
    have added := fun from_ => held.set (values p List.mem_cons_self) from_
    have later := fun q member => values q (List.mem_cons_of_mem _ member)
    unfold Merge.inherit at merged
    split at merged
    · split at merged
      · exact ih (added _) later merged
      · cases same : Property.same _ p with
        | true => rw [same] at merged; exact ih held later merged
        | false => rw [same] at merged; cases merged
    · exact ih (added _) later merged

theorem Holds.override (held : m.Holds A) {own : List (Property Node)} (values : ∀ p ∈ own, A p.value) :
    (m.override own).Holds A := by
  induction own generalizing m with
  | nil => exact held
  | cons p rest ih =>
    exact ih (held.set (values p List.mem_cons_self) none) fun q member => values q (List.mem_cons_of_mem _ member)

theorem Holds.children (held : m.Holds A) {additional : Additional Node} (further : ∀ c ∈ additional.nodes, A c) :
    ∀ c ∈ (Shape.object ⟨m.properties, additional, []⟩).children, A c := by
  intro c child
  rcases List.mem_append.1 child with child | child
  · rcases List.mem_append.1 child with child | child
    · obtain ⟨q, member, rfl⟩ := List.mem_map.1 child
      obtain ⟨entry, listed, rfl⟩ := List.mem_map.1 member
      exact held entry listed
    · exact further c child
  · cases child

theorem Holds.gather {additional : Additional Node} {outcomes : List (Option Node)} {out : Merge × Additional Node}
    (held : m.Holds A) (further : ∀ c ∈ additional.nodes, A c)
    (each : ∀ n, some n ∈ outcomes → ∀ c ∈ n.children, A c) (gathered : m.gather origin additional outcomes = some out) :
    out.1.Holds A ∧ ∀ c ∈ out.2.nodes, A c := by
  induction outcomes generalizing origin m additional with
  | nil => cases gathered; exact ⟨held, further⟩
  | cons outcome rest ih =>
    have later := fun n member => each n (List.mem_cons_of_mem _ member)
    cases outcome with
    | none => exact ih held further later gathered
    | some n =>
      have here := each n List.mem_cons_self
      obtain ⟨shape, annotations, optionality, restriction, misuse⟩ := n
      change ∀ c ∈ shape.children, A c at here
      cases shape with
      | object o =>
        rw [Merge.gather] at gathered
        dsimp only [Node.object?] at gathered
        cases merged : m.inherit origin o.properties with
        | error property => rw [merged] at gathered; cases gathered
        | ok m₁ =>
          rw [merged] at gathered
          have own : ∀ p ∈ o.properties, A p.value := fun p member =>
            here _ (List.mem_append_left _ (List.mem_append_left _ (List.mem_map_of_mem member)))
          have rest_ : ∀ c ∈ o.additional.nodes, A c := fun c member =>
            here _ (List.mem_append_left _ (List.mem_append_right _ member))
          refine ih (held.inherit own merged) ?_ later gathered
          cases same : o.additional with
          | forbidden => exact further
          | allowed => exact List.forall_mem_nil _
          | shape s =>
            rw [same] at rest_
            exact rest_
      | _ => cases gathered

end Merge

def Registry.Throughout (r : Registry) (A : Node → Prop) : Prop := ∀ name n, r.find? name = some n → n.Each A

theorem Registry.throughout_of_definitions {r : Registry} {A : Node → Prop}
    (each : ∀ d ∈ r.definitions, d.node.Each A) :
    r.Throughout A := by
  intro name n found
  obtain ⟨d, listed, rfl⟩ := mem_of_find? found
  exact each d listed

theorem Projects.of_outside {r : Registry} {v : Variant} {answer : String → Bool → Prop} {n : Node} {out : Option Node}
    (projects : Projects r v answer n out) (outside : n.outside v) : out = none := by
  cases projects <;> simp_all [Node.outside]

-- What holds of projected nodes passes on to what is inside of them and to the definitions that
-- parents name.
theorem Projects.entering {r : Registry} {v : Variant} {answer : String → Bool → Prop} {G A : Node → Prop} {n : Node}
    {out : Option Node} (projects : Projects r v answer n out)
    (inward : ∀ m c, G m → m.restriction.includes v → c ∈ m.shape.projectedNodes v → G c)
    (merging : ∀ m o p name target, G m → m.restriction.includes v → m.shape = .object o → p ∈ o.parents →
      p.restriction.includes v → p.shape = .reference name → r.find? name = some target → G target)
    (leaf : ∀ m, G m → m.restriction.includes v → m.shape.isLeaf → A (m.rebuilt m.shape))
    (kept : ∀ m name, G m → answer name true → A (m.rebuilt (.reference name)))
    (linked : ∀ m declaration schema, G m → m.shape.isLinked → A (m.rebuilt (.linked declaration schema)))
    (inner : ∀ m s, G m → s.isComposite → A (m.rebuilt s)) :
    G n → ∀ n', out = some n' → n'.Each A := by
  induction projects with
  | outside | dropped => exact fun _ => nofun
  | @leaf n inside bare =>
    rintro given _ ⟨⟩
    have none_ : (n.rebuilt n.shape).children = [] := Shape.children_leaf bare
    exact Node.each_of_bare none_ (leaf n given inside bare)
  | @kept name n inside shape answered =>
    rintro given _ ⟨⟩
    exact Node.each_of_bare rfl (kept n name given answered)
  | @array item item' n inside shape _ ih =>
    intro given n' some_
    obtain ⟨m, here, rfl⟩ := Option.map_eq_some_iff.1 some_
    have below := inward n item given inside (shape ▸ List.mem_cons_self)
    exact Node.each_iff.2 ⟨inner n _ given rfl, fun c child => List.mem_singleton.1 child ▸ ih below m here⟩
  | @union n inside members shape _ ih =>
    intro given n' some_
    cases all : members.filterMap (·.2) with
    | nil => rw [all] at some_; cases some_
    | cons k rest =>
      rw [all] at some_
      cases some_
      refine Node.each_iff.2 ⟨inner n _ given rfl, fun c child => ?_⟩
      obtain ⟨m, member, came⟩ := List.mem_filterMap.1 (all ▸ child : c ∈ members.filterMap (·.2))
      have below := inward n m.1 given inside (shape ▸ List.mem_map_of_mem member)
      exact ih m member below c came
  | @linked declaration _ schema _ n inside shape _ _ first second =>
    intro given n' some_
    obtain ⟨d, here, some_⟩ := Option.bind_eq_some_iff.1 some_
    obtain ⟨s, there, rfl⟩ := Option.map_eq_some_iff.1 some_
    have below := fun c child => inward n c given inside (shape ▸ child)
    refine Node.each_iff.2 ⟨linked n d s given (by rw [shape]; rfl), fun c child => ?_⟩
    rcases List.mem_cons.1 child with rfl | child
    · exact first (below _ List.mem_cons_self) _ here
    · exact List.mem_singleton.1 child ▸ second (below _ (List.mem_cons_of_mem _ List.mem_cons_self)) _ there
  | @object merged inherited rest n additional inside parents properties shape sources projected gathered _ _ outcomes own further =>
    rintro given _ ⟨⟩
    have below := fun c child => inward n c given inside (shape ▸ child)
    have contributed : ∀ p ∈ parents, ∀ k, p.outcome = some k → k.Each A := by
      rintro ⟨written, source, outcome⟩ parent k came
      have listed : written ∈ parents.map (·.written) := List.mem_map_of_mem parent
      have merges : r.Merges v written source := sources _ parent
      refine outcomes _ parent ?_ k came
      cases merges with
      | inline unnamed =>
        exact below _ (List.mem_append_right _ (List.mem_filter.2 ⟨listed, Option.isNone_iff_eq_none.2 unnamed⟩))
      | outside out =>
        -- nothing comes of it
        cases came.symm.trans ((projected _ parent).of_outside out)
      | named kept named resolves => exact merging n _ written _ _ given inside shape listed kept named resolves.1
    have ⟨fromParents, restFromParents⟩ := Merge.Holds.gather (A := Node.Each A)
      (fun _ member => absurd member List.not_mem_nil) (fun _ member => absurd member List.not_mem_nil)
      (fun n member => by
        obtain ⟨p, parent, same⟩ := List.mem_map.1 member
        exact (Node.each_iff.1 (contributed p parent n same)).2) gathered
    have owned : ∀ q ∈ properties.filterMap (fun p => p.1.remains v p.2), q.value.Each A := by
      intro q member
      obtain ⟨p, listed, remains⟩ := List.mem_filterMap.1 member
      obtain ⟨included, value, came, rfl⟩ := Property.remains_eq_some.1 remains
      refine own p listed included (below _ (List.mem_append_left _ (List.mem_append_left _ ?_))) value came
      exact List.mem_map_of_mem (List.mem_filter.2 ⟨List.mem_map_of_mem listed, included⟩)
    refine Node.each_iff.2 ⟨inner n _ given rfl, (fromParents.override owned).children fun c child => ?_⟩
    rcases Additional.mem_remains child with ⟨-, child⟩ | ⟨m, rfl, came⟩
    · exact restFromParents c child
    · have here := below m (List.mem_append_left _ (List.mem_append_right _ List.mem_cons_self))
      exact further m List.mem_cons_self here c came

theorem Registry.Merges.each {r : Registry} {v : Variant} {G : Node → Prop} {n source : Node}
    (merges : r.Merges v n source)
    (definitions : r.Throughout G) (here : n.Each G) : source.Each G := by
  cases merges with
  | inline | outside => exact here
  | named _ _ resolves => exact definitions _ _ resolves.1

theorem Projects.each {r : Registry} {v : Variant} {answer : String → Bool → Prop} {G A : Node → Prop} {n : Node}
    {out : Option Node} (projects : Projects r v answer n out)
    (definitions : r.Throughout G)
    (leaf : ∀ m, G m → m.shape.isLeaf → A (m.rebuilt m.shape))
    (kept : ∀ m name, G m → answer name true → A (m.rebuilt (.reference name)))
    (linked : ∀ m declaration schema, G m → m.shape.isLinked → A (m.rebuilt (.linked declaration schema)))
    (inner : ∀ m s, G m → s.isComposite → A (m.rebuilt s)) :
    n.Each G → ∀ n', out = some n' → n'.Each A :=
  projects.entering (G := Node.Each G) (fun _ c given _ child => (Node.each_iff.1 given).2 c (Shape.child_of_projected child))
    (fun _ _ _ name target _ _ _ _ _ _ found => definitions name target found) (fun m given _ => leaf m (given m .self))
    (fun m name given => kept m name (given m .self)) (fun m declaration schema given => linked m declaration schema (given m .self))
    fun m s given => inner m s (given m .self)

theorem Projects.refersTo {r : Registry} {v : Variant} {answer : String → Bool → Prop} {n : Node} {out : Option Node}
    (projects : Projects r v answer n out) : ∀ n', out = some n' → n'.RefersTo (answer · true) := by
  refine projects.each (G := fun _ => True) (fun _ _ _ _ _ => trivial) ?_ ?_ ?_ ?_ fun _ _ => trivial
  · intro m _ leaf name shape
    change m.shape = .reference name at shape
    rw [shape] at leaf
    cases leaf
  · rintro m name _ answered _ ⟨⟩
    exact answered
  · rintro m declaration schema _ _ name ⟨⟩
  · intro m s _ composite name shape
    change s = .reference name at shape
    rw [shape] at composite
    cases composite

theorem Projects.common {r : Registry} {v : Variant} {answer : String → Bool → Prop} {n : Node} {out : Option Node}
    (projects : Projects r v answer n out) (common : r.Throughout (·.shape.isCommon)) (here : n.Each (·.shape.isCommon)) :
    ∀ n', out = some n' → n'.Each (·.shape.isCommon) := by
  refine projects.each common (fun m given _ => given) (fun _ _ _ _ => rfl) ?_ ?_ here
  · intro m declaration schema given linked
    cases shape : m.shape <;> rw [shape] at given linked <;> cases linked
    cases given
  · intro m s _ composite
    change s.isCommon
    cases s <;> first | rfl | cases composite

def Registry.listing (r : Registry) : Verdict r where
  finds _ name _ := name ∈ r.names
  near _ deciding _ := ∀ name ∈ deciding, name ∈ r.names
  start := nofun
  inward near _ _ := near
  merging near _ _ _ _ _ := near
  push near _ _ resolves := List.forall_mem_cons.2 ⟨Registry.mem_names_of_find? resolves.1, near⟩
  leaning near _ _ busy := near _ busy
  settled resolves _ := Registry.mem_names_of_find? resolves.1

theorem Session.Reached.refersTo_registered {r : Registry} (reached : Session.Reached ⟨r, m⟩)
    (answered : (r.projectDefinition name v m).1 = .ok (some n)) : name ∈ r.names ∧ n.RefersTo (· ∈ r.names) := by
  have holds : r.listing.Holds m := reached.holds Registry.listing
  obtain ⟨own, resolves, projects⟩ := holds.projectDefinition answered
  refine ⟨Registry.mem_names_of_find? resolves.1, fun x part other shape => ?_⟩
  exact projects.refersTo n rfl x part other shape

end TwinShape
