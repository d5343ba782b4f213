import TwinShape.Proofs.Projection.Presence
import TwinShape.Proofs.Registry.Resolution

namespace TwinShape

-- What a parent is merged as: itself, or the definition that it names. A parent that
-- does not exist in the variant is not followed.
inductive Registry.Merges (r : Registry) (v : Variant) : Node → Node → Prop
  | inline (unnamed : n.referenceName? = none) : Merges r v n n
  | outside (out : n.outside v) : Merges r v n n
  | named (inside : n.restriction.includes v) (shape : n.shape = .reference name)
      (resolves : r.Resolves name target) : Merges r v n target

-- A parent as it is written, what it is merged as, and what comes out of that.
structure Ancestor where
  written : Node
  source : Node
  outcome : Option Node

-- Merges what has come out of parents, from one of them on. There is no outcome if one is
-- no object, or if two of them disagree about a property.
def Merge.gather (origin : Nat) (m : Merge) (additional : Additional Node) :
    List (Option Node) → Option (Merge × Additional Node)
  | [] => some (m, additional)
  | none :: rest => gather (origin + 1) m additional rest
  | some n :: rest =>
    match n.object? with
    | none => none
    | some o =>
      match m.inherit origin o.properties with
      | .error _ => none
      | .ok m => gather (origin + 1) m (additional.inherit o.additional) rest

def Property.remains (v : Variant) (p : Property Node) (value : Option Node) : Option (Property Node) :=
  if p.restriction.includes v then value.map fun value => ⟨p.name, value, .unrestricted⟩ else none

theorem Property.remains_eq_some {v : Variant} {p q : Property Node} {value : Option Node} :
    p.remains v value = some q ↔
      p.restriction.includes v = true ∧ ∃ n, value = some n ∧ q = ⟨p.name, n, .unrestricted⟩ := by
  unfold remains
  split
  · rename_i included
    rw [Option.map_eq_some_iff, and_iff_right included]
    exact exists_congr fun n => and_congr_right fun _ => eq_comm
  · rename_i excluded
    exact iff_of_false nofun fun kept => excluded kept.1

def Additional.remains (inherited : Additional Node) : Additional Node → Option Node → Additional Node
  | .forbidden, _ => inherited
  | .allowed, _ => .allowed
  | .shape _, some n => .shape n
  | .shape _, none => .forbidden

theorem Additional.mem_remains {inherited own : Additional Node} {rest : Option Node} {c : Node}
    (member : c ∈ (inherited.remains own rest).nodes) :
    (own = .forbidden ∧ c ∈ inherited.nodes) ∨ ∃ m, own = .shape m ∧ rest = some c := by
  cases own with
  | forbidden => exact .inl ⟨rfl, member⟩
  | allowed => cases member
  | shape m =>
    cases rest with
    | none => cases member
    | some k => exact .inr ⟨m, rfl, congrArg some (List.mem_singleton.1 member).symm⟩

def Node.rejoined (n : Node) : List Node → Option Node
  | [] => none
  | members => some (n.rebuilt (.union members))

-- What comes out of a node in a variant. No reference has to get the same answer twice.
inductive Projects (r : Registry) (v : Variant) (answer : String → Bool → Prop) : Node → Option Node → Prop
  | outside (out : n.outside v) : Projects r v answer n none
  | leaf (inside : n.restriction.includes v) (leaf : n.shape.isLeaf) : Projects r v answer n (some (n.rebuilt n.shape))
  | kept (inside : n.restriction.includes v) (shape : n.shape = .reference name) (answered : answer name true) :
      Projects r v answer n (some (n.rebuilt (.reference name)))
  | dropped (inside : n.restriction.includes v) (shape : n.shape = .reference name) (answered : answer name false) :
      Projects r v answer n none
  | array (inside : n.restriction.includes v) (shape : n.shape = .array item) (inner : Projects r v answer item item') :
      Projects r v answer n (item'.map fun item => n.rebuilt (.array item))
  | union (inside : n.restriction.includes v) (members : List (Node × Option Node))
      (shape : n.shape = .union (members.map (·.1))) (inner : ∀ m ∈ members, Projects r v answer m.1 m.2) :
      Projects r v answer n (n.rejoined (members.filterMap (·.2)))
  | linked (inside : n.restriction.includes v) (shape : n.shape = .linked declaration schema)
      (first : Projects r v answer declaration declaration') (second : Projects r v answer schema schema') :
      Projects r v answer n
        (declaration'.bind fun declaration => schema'.map fun schema => n.rebuilt (.linked declaration schema))
  | object (inside : n.restriction.includes v) (parents : List Ancestor) (properties : List (Property Node × Option Node))
      (shape : n.shape = .object ⟨properties.map (·.1), additional, parents.map (·.written)⟩)
      (sources : ∀ p ∈ parents, r.Merges v p.written p.source)
      (outcomes : ∀ p ∈ parents, Projects r v answer p.source p.outcome)
      (gathered : Merge.gather 0 [] .forbidden (parents.map (·.outcome)) = some (merged, inherited))
      (own : ∀ p ∈ properties, p.1.restriction.includes v → Projects r v answer p.1.value p.2)
      (further : ∀ m ∈ additional.nodes, Projects r v answer m rest) :
      Projects r v answer n (some (n.rebuilt (.object
        ⟨(merged.override (properties.filterMap fun p => p.1.remains v p.2)).properties,
          inherited.remains additional rest, []⟩)))

-- A stretch of a run, from one state of knowledge to another, and the faults it may end with.
structure Course (σ ε : Type) where
  before : σ → σ → Prop
  refl : before s s
  trans : before s t → before t u → before s u
  first : σ
  last : σ
  fault : ε → Prop

-- What an inquiry says of its answer, if it lies within the course.
def Course.Says (c : Course σ ε) (P : α → Prop) (x : Inquiry σ ε α) : Prop :=
  ∀ s, c.before s (x s).2 ∧ match (x s).1 with
    | .error e => c.fault e
    | .ok a => c.before c.first s → c.before (x s).2 c.last → P a

namespace Course.Says
variable {c : Course σ ε} {P : α → Prop} {Q : β → Prop}

theorem pure {a : α} (holds : P a) : c.Says P (Pure.pure a : Inquiry σ ε α) :=
  fun _ => ⟨c.refl, fun _ _ => holds⟩

theorem fail {e : ε} (allowed : c.fault e) : c.Says P (Inquiry.fail e) := fun _ => ⟨c.refl, allowed⟩

-- What follows says what it says on condition of what was found first: whether that lies
-- within the course is known only when the whole does.
theorem bind {x : Inquiry σ ε α} {f : α → Inquiry σ ε β} (first : c.Says P x)
    (next : ∀ a, c.Says (fun b => P a → Q b) (f a)) : c.Says Q (x >>= f) := by
  intro s
  have ⟨came, said⟩ := first s
  change c.before s (Inquiry.bind x f s).2 ∧ match (Inquiry.bind x f s).1 with
    | .error e => c.fault e
    | .ok b => c.before c.first s → c.before (Inquiry.bind x f s).2 c.last → Q b
  unfold Inquiry.bind
  revert came said
  rcases x s with ⟨e | a, t⟩ <;> intro came said
  · exact ⟨came, said⟩
  · have ⟨went, said'⟩ := next a t
    dsimp only
    revert went said'
    rcases f a t with ⟨e | b, u⟩ <;> intro went said'
    · exact ⟨c.trans came went, said'⟩
    · exact ⟨c.trans came went, fun from_ to_ => said' (c.trans from_ came) to_ (said from_ (c.trans went to_))⟩

theorem weaken {P' : α → Prop} {x : Inquiry σ ε α} (told : c.Says P x) (weaker : ∀ a, P a → P' a) : c.Says P' x := by
  intro s
  have ⟨came, said⟩ := told s
  refine ⟨came, ?_⟩
  revert said
  rcases x s with ⟨e | a, t⟩
  · exact id
  · exact fun said from_ to_ => weaker _ (said from_ to_)

theorem bind_pure {x : Inquiry σ ε α} {f : α → β} (first : c.Says P x) (next : ∀ a, P a → Q (f a)) :
    c.Says Q (x >>= fun a => Pure.pure (f a)) :=
  first.bind fun a => .pure (next a)

end Course.Says

def Fault.isAbsence : Fault → Bool
  | .absentInVariant .. => true
  | _ => false

section
variable {r : Registry} {v : Variant} {c : Course Trail Fault} {answer : String → Bool → Prop} {scope : Scope}
  (faults : ∀ e : Fault, e.isAbsence = false → c.fault e)

theorem members_projected {ms : List Node}
    (each : ∀ m ∈ ms, c.Says (Projects r v answer m) (projectNode r v scope m)) :
    c.Says (fun kept => ∃ members : List (Node × Option Node), members.map (·.1) = ms ∧
      (∀ m ∈ members, Projects r v answer m.1 m.2) ∧ members.filterMap (·.2) = kept)
      (projectMembers r v scope ms) := by
  induction ms with
  | nil =>
    rw [projectMembers]
    exact .pure ⟨[], rfl, List.forall_mem_nil _, rfl⟩
  | cons m rest ih =>
    rw [projectMembers]
    refine .bind (each m List.mem_cons_self) fun kept => ?_
    refine .bind_pure (ih fun n member => each n (List.mem_cons_of_mem _ member)) ?_
    rintro _ ⟨members, rfl, later, rfl⟩ first
    refine ⟨(m, kept) :: members, rfl, List.forall_mem_cons.2 ⟨first, later⟩, ?_⟩
    cases kept <;> rfl

theorem properties_projected {ps : List (Property Node)}
    (each : ∀ m ∈ ps.map (·.value), c.Says (Projects r v answer m) (projectNode r v scope m)) :
    c.Says (fun kept => ∃ properties : List (Property Node × Option Node), properties.map (·.1) = ps ∧
      (∀ p ∈ properties, p.1.restriction.includes v → Projects r v answer p.1.value p.2) ∧
      (properties.filterMap fun p => p.1.remains v p.2) = kept)
      (projectProperties r v scope ps) := by
  induction ps with
  | nil =>
    rw [projectProperties]
    exact .pure ⟨[], rfl, List.forall_mem_nil _, rfl⟩
  | cons p rest ih =>
    have others := ih fun m member => each m (List.mem_cons_of_mem _ member)
    obtain ⟨name, value, restriction⟩ := p
    rw [projectProperties]
    by_cases inside : restriction.includes v = true
    · rw [if_pos inside]
      refine .bind (each value List.mem_cons_self) fun kept => ?_
      refine .bind_pure others ?_
      rintro _ ⟨properties, rfl, later, rfl⟩ first
      refine ⟨(⟨name, value, restriction⟩, kept) :: properties, rfl, List.forall_mem_cons.2 ⟨fun _ => first, later⟩, ?_⟩
      rw [List.filterMap_cons]
      unfold Property.remains
      rw [if_pos inside]
      cases kept <;> rfl
    · rw [if_neg inside]
      refine others.weaken ?_
      rintro _ ⟨properties, rfl, later, rfl⟩
      refine ⟨(⟨name, value, restriction⟩, none) :: properties, rfl, List.forall_mem_cons.2 ⟨fun kept => absurd kept inside, later⟩, ?_⟩
      rw [List.filterMap_cons]
      unfold Property.remains
      rw [if_neg inside]

theorem additional_projected {inherited own : Additional Node}
    (each : ∀ m ∈ own.nodes, c.Says (Projects r v answer m) (projectNode r v scope m)) :
    c.Says (fun kept => ∃ rest, (∀ m ∈ own.nodes, Projects r v answer m rest) ∧ inherited.remains own rest = kept)
      (projectAdditional r v scope inherited own) := by
  cases own with
  | forbidden =>
    rw [projectAdditional]
    exact .pure ⟨none, List.forall_mem_nil _, rfl⟩
  | allowed =>
    rw [projectAdditional]
    exact .pure ⟨none, List.forall_mem_nil _, rfl⟩
  | shape n =>
    rw [projectAdditional]
    refine .bind (each n List.mem_cons_self) fun kept => ?_
    have only : ∀ {rest}, Projects r v answer n rest → ∀ m ∈ (Additional.shape n).nodes, Projects r v answer m rest :=
      fun projects m member => List.mem_singleton.1 member ▸ projects
    cases kept with
    | none => exact .pure fun projects => ⟨none, only projects, rfl⟩
    | some k => exact .pure fun projects => ⟨some k, only projects, rfl⟩

def ParentProjected (r : Registry) (v : Variant) (answer : String → Bool → Prop) (n : Node)
    (o : Option (ObjectShape Node)) : Prop :=
  ∃ source outcome, r.Merges v n source ∧ Projects r v answer source outcome ∧ outcome.map Node.object? = o.map some

include faults

theorem object_projected (outcome : Option Node) :
    c.Says (fun o => outcome.map Node.object? = o.map some) (objectOf? scope outcome) := by
  cases outcome with
  | none => exact .pure rfl
  | some n =>
    obtain ⟨shape, annotations, optionality, restriction, misuse⟩ := n
    cases shape with
    | object o => exact .pure rfl
    | _ => exact .fail (faults _ rfl)

theorem parents_projected {ms : List Node}
    (each : ∀ m ∈ ms, c.Says (ParentProjected r v answer m) (projectParent r v scope m))
    (origin : Nat) (merged : Merge) (additional : Additional Node) :
    c.Says (fun out => ∃ parents : List Ancestor, parents.map (·.written) = ms ∧
      (∀ p ∈ parents, r.Merges v p.written p.source) ∧ (∀ p ∈ parents, Projects r v answer p.source p.outcome) ∧
      Merge.gather origin merged additional (parents.map (·.outcome)) = some out)
      (projectParents r v scope origin merged additional ms) := by
  induction ms generalizing origin merged additional with
  | nil =>
    rw [projectParents]
    exact .pure ⟨[], rfl, List.forall_mem_nil _, List.forall_mem_nil _, rfl⟩
  | cons m rest ih =>
    have later := ih fun n member => each n (List.mem_cons_of_mem _ member)
    rw [projectParents]
    refine .bind (each m List.mem_cons_self) fun o => ?_
    cases o with
    | none =>
      refine (later (origin + 1) merged additional).weaken ?_
      rintro out ⟨parents, rfl, sources, outcomes, gathered⟩ ⟨source, outcome, merges, projects, object⟩
      cases outcome with
      | some n => cases object
      | none =>
        exact ⟨⟨m, source, none⟩ :: parents, rfl, List.forall_mem_cons.2 ⟨merges, sources⟩,
          List.forall_mem_cons.2 ⟨projects, outcomes⟩, gathered⟩
    | some o =>
      dsimp only
      cases inherits : merged.inherit origin o.properties with
      | error property => exact .fail (faults _ rfl)
      | ok merged' =>
        refine (later (origin + 1) merged' (additional.inherit o.additional)).weaken ?_
        rintro out ⟨parents, rfl, sources, outcomes, gathered⟩ ⟨source, outcome, merges, projects, object⟩
        cases outcome with
        | none => cases object
        | some n =>
          refine ⟨⟨m, source, some n⟩ :: parents, rfl, List.forall_mem_cons.2 ⟨merges, sources⟩,
            List.forall_mem_cons.2 ⟨projects, outcomes⟩, ?_⟩
          rw [List.map_cons, Merge.gather, show n.object? = some o from Option.some.inj object]
          dsimp only
          rw [inherits]
          exact gathered

theorem parent_projected {n : Node} (here : c.Says (Projects r v answer n) (projectNode r v scope n))
    (resolve : ∀ definition name, c.Says (fun target => r.Resolves name target.val)
      (Probe.ask (r.resolveFrom definition name)))
    (targets : ∀ name (target : r.Found name), n.shape = .reference name → name ∉ scope.chain →
      c.Says (Projects r v answer target.val)
        (projectNode r v { scope with definition := name, chain := name :: scope.chain } target.val)) :
    c.Says (ParentProjected r v answer n) (projectParent r v scope n) := by
  cases named : n.referenceName? with
  | none =>
    rw [projectParent_inline named]
    refine .bind here fun outcome => (object_projected faults outcome).weaken ?_
    exact fun o object projects => ⟨n, outcome, .inline named, projects, object⟩
  | some name =>
    have shape := Node.shape_of_referenceName named
    rw [projectParent_named shape]
    by_cases visited : name ∈ scope.chain
    · rw [if_pos visited]
      exact .fail (faults _ rfl)
    · rw [if_neg visited]
      by_cases inside : n.restriction.includes v = true
      · rw [if_pos inside]
        refine .bind (resolve _ name) fun target => ?_
        refine .bind (targets name target shape visited) fun outcome => (object_projected faults outcome).weaken ?_
        exact fun o object projects resolves => ⟨target.val, outcome, .named inside shape resolves, projects, object⟩
      · rw [if_neg inside]
        have out : n.outside v := by simpa [Node.outside] using inside
        exact .pure ⟨_, none, .outside out, .outside out, rfl⟩

theorem shape_projected {n : Node} (inside : n.restriction.includes v)
    (decided : ∀ name, n.shape = .reference name → c.Says (answer name) (isPresent r v scope name))
    (each : ∀ m ∈ n.shape.children, c.Says (Projects r v answer m) (projectNode r v scope m))
    (parents : ∀ o, n.shape = .object o → ∀ m ∈ o.parents,
      c.Says (ParentProjected r v answer m) (projectParent r v scope m)) :
    c.Says (fun shape => Projects r v answer n (shape.map n.rebuilt)) (projectShape r v scope n.shape) := by
  cases shape : n.shape with
  | object o =>
    obtain ⟨properties, additional, extended⟩ := o
    rw [shape] at each
    have own := fun m member => each m (List.mem_append_left _ member)
    rw [projectShape]
    refine .bind (parents_projected faults (fun m member => parents _ shape m member) 0 [] .forbidden) ?_
    rintro ⟨merged, inherited⟩
    refine .bind (properties_projected fun m member => own m (List.mem_append_left _ member)) fun kept => ?_
    refine .bind_pure (additional_projected fun m member => own m (List.mem_append_right _ member)) ?_
    rintro _ ⟨rest, further, rfl⟩ ⟨properties, rfl, owned, rfl⟩ ⟨ancestors, rfl, sources, outcomes, gathered⟩
    exact .object inside ancestors properties shape sources outcomes gathered owned further
  | array item =>
    rw [shape] at each
    rw [projectShape]
    refine .bind (each item List.mem_cons_self) fun kept => ?_
    cases kept with
    | none => exact .pure fun inner => .array inside shape inner
    | some m => exact .pure fun inner => .array inside shape inner
  | union members =>
    rw [shape] at each
    rw [projectShape]
    refine .bind (members_projected each) fun kept => ?_
    cases kept with
    | nil =>
      refine .pure ?_
      rintro ⟨members, rfl, inner, none_⟩
      have projects := Projects.union inside members shape inner
      rw [none_] at projects
      exact projects
    | cons m rest =>
      refine .pure ?_
      rintro ⟨members, rfl, inner, some_⟩
      have projects := Projects.union inside members shape inner
      rw [some_] at projects
      exact projects
  | reference name =>
    rw [projectShape]
    refine .bind (decided name shape) fun present => ?_
    cases present with
    | false => exact .pure fun answered => .dropped inside shape answered
    | true => exact .pure fun answered => .kept inside shape answered
  | linked declaration schema =>
    rw [shape] at each
    rw [projectShape]
    refine .bind (each declaration List.mem_cons_self) fun first => ?_
    refine .bind (each schema (List.mem_cons_of_mem _ List.mem_cons_self)) fun second => ?_
    cases first with
    | none => exact .pure fun projects projects' => .linked inside shape projects' projects
    | some d =>
      cases second with
      | none => exact .pure fun projects projects' => .linked inside shape projects' projects
      | some s => exact .pure fun projects projects' => .linked inside shape projects' projects
  | _ =>
    rw [projectShape_leaf rfl]
    have leaf : n.shape.isLeaf := by rw [shape]; rfl
    have projects : Projects r v answer n (some (n.rebuilt n.shape)) := .leaf inside leaf
    rw [shape] at projects
    exact .pure projects

-- A node is projected by the answers that presence checks give on its level. What is near is
-- every node that is come to without a presence check.
theorem near_projected {busy : List String} {near : Node → Prop}
    (inward : ∀ {n m}, near n → n.restriction.includes v → m ∈ n.children → near m)
    (merging : ∀ {n o} {m : Node} {name target}, near n → n.restriction.includes v → n.shape = .object o → m ∈ o.parents →
      m.shape = .reference name → r.find? name = some target → near target)
    (resolve : ∀ definition name, c.Says (fun target => r.Resolves name target.val)
      (Probe.ask (r.resolveFrom definition name)))
    (decided : ∀ n scope name, near n → n.restriction.includes v → n.shape = .reference name → scope.projecting = busy →
      c.Says (answer name) (isPresent r v scope name))
    (n : Node) (here : near n) (scope : Scope) (level : scope.projecting = busy) :
    c.Says (Projects r v answer n) (projectNode r v scope n) := by
  rw [projectNode_eq]
  by_cases inside : n.restriction.includes v = true
  · rw [if_pos inside]
    have each : ∀ m ∈ n.children, c.Says (Projects r v answer m) (projectNode r v scope m) :=
      fun m child => near_projected inward merging resolve decided m (inward here inside child) scope level
    refine .bind (shape_projected faults inside (fun name shape => decided n scope name here inside shape level) each
      fun o shape m member => ?_) fun shape => ?_
    · have child : m ∈ n.children := by
        unfold Node.children
        rw [shape]
        exact List.mem_append_right _ member
      refine parent_projected faults (each m child) resolve fun name target named fresh => ?_
      exact near_projected inward merging resolve decided target.val
        (merging here inside shape member named target.property) _ level
    · cases shape with
      | none => exact .pure id
      | some s => exact .pure id
  · rw [if_neg inside]
    exact .pure (.outside (by simpa [Node.outside] using inside))
termination_by (r.unvisited scope.chain, sizeOf n)
decreasing_by
  · exact .right _ (Node.sizeOf_child child)
  · exact .left _ _ (r.unvisited_cons_lt (r.mem_names_of_find? target.property) fresh)

theorem node_projected {busy : List String}
    (resolve : ∀ definition name, c.Says (fun target => r.Resolves name target.val)
      (Probe.ask (r.resolveFrom definition name)))
    (decided : ∀ scope name, scope.projecting = busy → c.Says (answer name) (isPresent r v scope name))
    (n : Node) (scope : Scope) (level : scope.projecting = busy) :
    c.Says (Projects r v answer n) (projectNode r v scope n) :=
  near_projected faults (fun _ _ _ => trivial) (fun _ _ _ _ _ _ => trivial) resolve
    (fun _ scope name _ _ _ level => decided scope name level) n trivial scope level

end
end TwinShape
