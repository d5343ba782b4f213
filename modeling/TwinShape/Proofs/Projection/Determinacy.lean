import TwinShape.Proofs.Projection.References
import TwinShape.Proofs.Variation.Likeness

namespace TwinShape

def Registry.Unlinked (r : Registry) : Prop := r.Throughout fun n => n.shape.isLinked = false

-- Answers that keep what exists and drop what does not.
def Registry.Exactly (r : Registry) (v : Variant) (name : String) (present : Bool) : Prop :=
  present = true ↔ name ∈ r.existing v

-- Without links a node is present as soon as something inside of it is.
theorem Node.Present.outward {P : String → Prop} {n c : Node} (present : c.Present v P)
    (inside : n.restriction.includes v)
    (unlinked : n.shape.isLinked = false) (child : c ∈ n.children) : n.Present v P := by
  unfold Node.children at child
  cases shape : n.shape with
  | object o => exact .object inside shape
  | array item =>
    rw [shape] at child
    exact .array inside shape (List.mem_singleton.1 child ▸ present)
  | union members =>
    rw [shape] at child
    exact .union inside shape child present
  | linked declaration schema =>
    rw [shape] at unlinked
    cases unlinked
  | _ =>
    rw [shape] at child
    cases child

namespace Registry
variable {r : Registry}

-- What is being decided exists, if the node that is looked at is present.
def Supports (r : Registry) (v : Variant) (deciding : List String) (n : Node) : Prop :=
  ∀ P : Set String, n.Present v (· ∈ P) → ∀ name ∈ deciding, name ∈ r.supported v (P ∪ {other | other ∈ deciding})

theorem Supports.push {deciding : List String} {n target : Node} (supports : r.Supports v deciding n)
    (inside : n.restriction.includes v) (shape : n.shape = .reference name) (resolves : r.Resolves name target) :
    r.Supports v (name :: deciding) target := by
  intro P present other member
  rcases List.mem_cons.1 member with rfl | member
  · exact ⟨target, resolves, present.mono fun _ held => .inl held⟩
  · have lone := supports {name} (.reference inside shape rfl) other member
    refine (r.supported v).monotone (fun which held => ?_) lone
    rcases held with rfl | held
    · exact .inr List.mem_cons_self
    · exact .inr (List.mem_cons_of_mem _ held)

-- What leads back to itself without anything that is missing exists.
theorem Supports.existing {deciding : List String} {n : Node} (supports : r.Supports v deciding n)
    (inside : n.restriction.includes v) (shape : n.shape = .reference name) (member : name ∈ deciding) :
    name ∈ r.existing v := by
  have closed : r.existing v ∪ {other | other ∈ deciding} ⊆ r.supported v (r.existing v ∪ {other | other ∈ deciding}) := by
    rintro other (exists_ | busy)
    · have fixed := mem_existing_iff.1 exists_
      exact (r.supported v).monotone Set.subset_union_left fixed
    · have here := supports (r.existing v ∪ {other | other ∈ deciding}) (.reference inside shape (.inr member)) other busy
      rwa [Set.union_assoc, Set.union_self] at here
  exact subset_existing closed (.inr member)

-- Without links, presence checks are right whatever they have leaned on.
def exactness (r : Registry) : Verdict r where
  finds v name present := r.Unlinked → r.Exactly v name present
  near v deciding n := r.Unlinked → (deciding ≠ [] → n.Each fun x => x.shape.isLinked = false) ∧ r.Supports v deciding n
  start _ := ⟨absurd rfl, fun _ _ _ => nofun⟩
  inward := by
    intro v deciding n c near inside child unlinked
    obtain ⟨below, supports⟩ := near unlinked
    refine ⟨fun some_ => (Node.each_iff.1 (below some_)).2 c child, fun P present name member => ?_⟩
    have here := (Node.each_iff.1 (below (List.ne_nil_of_mem member))).1
    exact supports P (present.outward inside here child) name member
  merging := by
    intro v deciding n o m name target near inside shape _ _ found unlinked
    exact ⟨fun _ => unlinked name target found, fun P _ => (near unlinked).2 P (.object inside shape)⟩
  push near inside shape resolves unlinked :=
    ⟨fun _ => unlinked _ _ resolves.1, (near unlinked).2.push inside shape resolves⟩
  leaning near inside shape busy unlinked := iff_of_true rfl ((near unlinked).2.existing inside shape busy)
  settled := by
    intro name target v out resolves projects unlinked
    refine ⟨fun some_ => ?_, fun exists_ => ?_⟩
    · exact mem_existing_iff.2 ⟨target, resolves, projects.present_of_isSome (fun _ kept => (kept unlinked).1 rfl) some_⟩
    · obtain ⟨n, resolves', present⟩ := mem_existing_iff.1 exists_
      cases resolves.unique resolves'
      exact projects.isSome_of_present (fun _ dropped here => Bool.false_ne_true ((dropped unlinked).2 here)) present

end Registry

theorem filterMap_eq_of_keys {key : α → κ} {f : α → Option β} {as bs : List α} (same : as.map key = bs.map key)
    (each : ∀ a ∈ as, ∀ b ∈ bs, key a = key b → f a = f b) : as.filterMap f = bs.filterMap f := by
  induction as generalizing bs with
  | nil =>
    rw [List.map_eq_nil_iff.1 same.symm]
  | cons a as ih =>
    cases bs with
    | nil => cases same
    | cons b bs =>
      obtain ⟨head, tail⟩ := List.cons.inj same
      have rest := ih tail fun a' inside b' inside' =>
        each a' (List.mem_cons_of_mem _ inside) b' (List.mem_cons_of_mem _ inside')
      rw [List.filterMap_cons, List.filterMap_cons, rest, each a List.mem_cons_self b List.mem_cons_self head]

section
variable {r : Registry} {v w : Variant} {answer : String → Bool → Prop}

theorem Registry.Merges.source_unique {n source source' : Node} (first : r.Merges v n source)
    (second : r.Merges w n source')
    (inside : n.restriction.includes v) (inside' : n.restriction.includes w) : source = source' := by
  cases first with
  | outside out => simp [Node.outside, inside] at out
  | inline unnamed =>
    cases second with
    | inline => rfl
    | outside out => simp [Node.outside, inside'] at out
    | named _ shape _ => simp [Node.referenceName?, shape] at unnamed
  | named _ shape resolves =>
    cases second with
    | inline unnamed => simp [Node.referenceName?, shape] at unnamed
    | outside out => simp [Node.outside, inside'] at out
    | named _ shape' resolves' =>
      cases shape.symm.trans shape'
      exact resolves.unique resolves'

theorem Registry.Merges.unique {n : Node} (first : r.Merges v n source) (second : r.Merges v n source') :
    source = source' := by
  cases included : n.restriction.includes v with
  | true => exact first.source_unique second included included
  | false =>
    have itself : ∀ {source}, r.Merges v n source → source = n := by
      intro source merges
      cases merges with
      | inline | outside => rfl
      | named inside _ _ => rw [included] at inside; cases inside
    rw [itself first, itself second]

end

-- What may come out of a node within the variant, by its shape.
namespace Projects
variable {r : Registry} {v : Variant} {answer : String → Bool → Prop} {n : Node} {out : Option Node}
  (projects : Projects r v answer n out) (inside : n.restriction.includes v)
include projects inside

theorem of_leaf (leaf : n.shape.isLeaf) : out = some (n.rebuilt n.shape) := by
  cases projects <;> simp_all [Node.outside, Shape.isLeaf]

theorem of_reference (shape : n.shape = .reference name) :
    ∃ present, answer name present ∧ out = if present then some (n.rebuilt (.reference name)) else none := by
  cases projects with
  | kept _ shape' answered =>
    cases shape.symm.trans shape'
    exact ⟨true, answered, rfl⟩
  | dropped _ shape' answered =>
    cases shape.symm.trans shape'
    exact ⟨false, answered, rfl⟩
  | _ => simp_all [Node.outside, Shape.isLeaf]

theorem of_array (shape : n.shape = .array item) :
    ∃ item', Projects r v answer item item' ∧ out = item'.map fun item => n.rebuilt (.array item) := by
  cases projects with
  | array _ shape' inner =>
    cases shape.symm.trans shape'
    exact ⟨_, inner, rfl⟩
  | _ => simp_all [Node.outside, Shape.isLeaf]

theorem of_union (shape : n.shape = .union members) : ∃ kept : List (Node × Option Node), members = kept.map (·.1) ∧
    (∀ m ∈ kept, Projects r v answer m.1 m.2) ∧ out = n.rejoined (kept.filterMap (·.2)) := by
  cases projects with
  | union _ kept shape' inner => exact ⟨kept, Shape.union.inj (shape.symm.trans shape'), inner, rfl⟩
  | _ => simp_all [Node.outside, Shape.isLeaf]

theorem of_linked (shape : n.shape = .linked declaration schema) : ∃ declaration' schema',
    Projects r v answer declaration declaration' ∧ Projects r v answer schema schema' ∧
      out = declaration'.bind fun declaration => schema'.map fun schema => n.rebuilt (.linked declaration schema) := by
  cases projects with
  | linked _ shape' first second =>
    cases shape.symm.trans shape'
    exact ⟨_, _, first, second, rfl⟩
  | _ => simp_all [Node.outside, Shape.isLeaf]

theorem of_object (shape : n.shape = .object ⟨own, additional, written⟩) :
    ∃ (parents : List Ancestor) (properties : List (Property Node × Option Node)) (merged : Merge) (inherited : Additional Node)
      (rest : Option Node), own = properties.map (·.1) ∧ written = parents.map (·.written) ∧
      (∀ p ∈ parents, r.Merges v p.written p.source ∧ Projects r v answer p.source p.outcome) ∧
      Merge.gather 0 [] .forbidden (parents.map (·.outcome)) = some (merged, inherited) ∧
      (∀ p ∈ properties, p.1.restriction.includes v → Projects r v answer p.1.value p.2) ∧
      (∀ m ∈ additional.nodes, Projects r v answer m rest) ∧
      out = some (n.rebuilt (.object ⟨(merged.override (properties.filterMap fun p => p.1.remains v p.2)).properties,
        inherited.remains additional rest, []⟩)) := by
  cases projects with
  | object _ parents properties shape' sources outcomes gathered own further =>
    cases shape.symm.trans shape'
    exact ⟨parents, properties, _, _, _, rfl, rfl, fun p parent => ⟨sources p parent, outcomes p parent⟩, gathered, own,
      further, rfl⟩
  | _ => simp_all [Node.outside, Shape.isLeaf]

omit inside

theorem unique (functional : ∀ name a b, answer name a → answer name b → a = b) :
    ∀ out', Projects r v answer n out' → out = out' := by
  induction projects with
  | outside outside => exact fun out' second => (second.of_outside outside).symm
  | leaf inside leaf => exact fun out' second => (second.of_leaf inside leaf).symm
  | kept inside shape answered =>
    intro out' second
    obtain ⟨present, answered', rfl⟩ := second.of_reference inside shape
    rw [← functional _ _ _ answered answered']
    rfl
  | dropped inside shape answered =>
    intro out' second
    obtain ⟨present, answered', rfl⟩ := second.of_reference inside shape
    rw [← functional _ _ _ answered answered']
    rfl
  | array inside shape _ ih =>
    intro out' second
    obtain ⟨item', inner, rfl⟩ := second.of_array inside shape
    rw [ih _ inner]
  | union inside members shape _ ih =>
    intro out' second
    obtain ⟨members', keys, inner, rfl⟩ := second.of_union inside shape
    have same : members.filterMap (·.2) = members'.filterMap (·.2) :=
      filterMap_eq_of_keys keys fun m member m' member' key => ih m member _ (key ▸ inner m' member')
    rw [same]
  | linked inside shape _ _ ih ih' =>
    intro out' second
    obtain ⟨declaration', schema', here, there, rfl⟩ := second.of_linked inside shape
    rw [ih _ here, ih' _ there]
  | @object merged inherited rest n additional inside parents properties shape sources _ gathered _ _ outcomes own further =>
    intro out' second
    obtain ⟨parents', properties', merged', inherited', rest', keys, written, sources', gathered', own', further', rfl⟩ :=
      second.of_object inside shape
    have gathers : parents.map (·.outcome) = parents'.map (·.outcome) := by
      rw [← List.filterMap_eq_map]
      refine filterMap_eq_of_keys written fun p parent p' parent' key => congrArg some ?_
      have ⟨merges, outcome⟩ := sources' p' parent'
      have source := (sources p parent).unique (key ▸ merges)
      exact outcomes p parent _ (source ▸ outcome)
    have remains : properties.filterMap (fun p => p.1.remains v p.2) = properties'.filterMap fun p => p.1.remains v p.2 := by
      refine filterMap_eq_of_keys keys fun p member p' member' key => ?_
      unfold Property.remains
      rw [key]
      split
      · rename_i included
        rw [own p member (key ▸ included) _ (key ▸ own' p' member' included)]
      · rfl
    have others : inherited.remains additional rest = inherited.remains additional rest' := by
      cases additional with
      | forbidden | allowed => rfl
      | shape m => rw [further m List.mem_cons_self _ (further' m List.mem_cons_self)]
    rw [gathers] at gathered
    cases gathered.symm.trans gathered'
    rw [remains, others]

end Projects

namespace Registry
variable {r : Registry}

theorem exactly_unique (first : r.Exactly v name a) (second : r.Exactly v name b) : a = b :=
  Bool.eq_iff_iff.2 (Iff.trans first second.symm)

theorem projects_exactly (unlinked : r.Unlinked) (told : r.Tells r.InSession name v out) :
    ∃ n, r.Resolves name n ∧ Projects r v (r.Exactly v) n out := by
  obtain ⟨m, reached, answered⟩ := told
  have holds : r.exactness.Holds m := reached.holds exactness
  have finds : r.exactness.finds v = r.Exactly v :=
    funext fun _ => funext fun _ => propext ⟨fun found => found unlinked, fun found _ => found⟩
  exact finds ▸ holds.projectDefinition answered

-- What a node comes to is determined by what exists, and a clean one comes to the same in both variants.
theorem exactly_determined (same : v = w ∨ r.Clean [] n) (first : Projects r v (r.Exactly v) n out)
    (second : Projects r w (r.Exactly w) n out') : out = out' := by
  have functional : ∀ name a b, r.Exactly w name a → r.Exactly w name b → a = b := fun _ _ _ => exactly_unique
  rcases same with rfl | clean
  · exact first.unique functional _ second
  · refine (first.across w clean fun other present clean' exactly => ?_).unique functional _ second
    exact exactly.trans ⟨existing_across w clean', existing_across v clean'⟩

theorem projection_determined (unlinked : r.Unlinked) (same : v = w ∨ r.CleanName name)
    (first : r.Tells r.InSession name v out) (second : r.Tells r.InSession name w out') : out = out' := by
  obtain ⟨n, resolves, projects⟩ := projects_exactly unlinked first
  obtain ⟨n', resolves', projects'⟩ := projects_exactly unlinked second
  cases resolves.unique resolves'
  exact exactly_determined (same.imp_right fun clean => clean n resolves) projects projects'

end Registry
end TwinShape
