import TwinShape.Proofs.Projection.Flattening
import TwinShape.Proofs.Projection.Presence
import TwinShape.Proofs.Registry.Resolution

namespace TwinShape

-- The nodes directly inside of a shape that are projected with it. A property that does not
-- exist in the variant is passed over, and a parent by name stands for another tree.
def Shape.projectedNodes (v : Variant) : Shape Node → List Node
  | .object o => (o.properties.filter (·.restriction.includes v)).map (·.value) ++ o.additional.nodes ++
      o.parents.filter (·.referenceName?.isNone)
  | s => s.children

theorem Shape.child_of_projected {s : Shape Node} (member : c ∈ s.projectedNodes v) : c ∈ s.children := by
  cases s with
  | object o =>
    rcases List.mem_append.1 member with inner | parent
    · rcases List.mem_append.1 inner with value | further
      · obtain ⟨p, kept, rfl⟩ := List.mem_map.1 value
        have listed : p ∈ o.properties := (List.mem_filter.1 kept).1
        exact List.mem_append_left _ (List.mem_append_left _ (List.mem_map_of_mem listed))
      · exact List.mem_append_left _ (List.mem_append_right _ further)
    · exact List.mem_append_right _ (List.mem_filter.1 parent).1
  | _ => exact member

-- Where the faults of a projection come from, and what is known when they come. `here` is what
-- holds of each node that is projected and of where it stands then.
structure Blame (r : Registry) (v : Variant) where
  here : Scope → Node → Prop
  fault : Fault → Memory → Prop
  inside : here s n → n.restriction.includes v → c ∈ n.shape.projectedNodes v → here s c
  merged : here s n → n.restriction.includes v → n.shape = .object o → p ∈ o.parents → p.restriction.includes v →
    p.shape = .reference name → name ∉ s.chain → r.find? name = some target →
    here { s with definition := name, chain := name :: s.chain } target
  decided : here s n → n.restriction.includes v → n.shape = .reference name → r.find? name = some target →
    here (.start name (name :: s.projecting)) target
  missing : here s n → n.restriction.includes v → n.shape = .reference name ∨
      (∃ o, n.shape = .object o ∧ ∃ p ∈ o.parents, p.shape = .reference name) →
    r.find? name = none → fault (.unknownDefinition s.definition name) m
  flawed : r.find? name = some target → target.firstFlaw? r.engines.pattern .root = some finding → fault (.construction name finding) m
  circular : here s n → n.restriction.includes v → n.shape = .object o → p ∈ o.parents → p.shape = .reference name →
    name ∈ s.chain → fault (.cyclicExtends s.entry (name :: s.chain).reverse) m
  collides : here s n → n.restriction.includes v → n.shape = .object o → ParentsClash r v s o.parents property t →
    fault (.extendsCollision s.definition property) t.memory
  foreign : here s n → n.restriction.includes v → n.shape = .object o → p ∈ o.parents → ParentProjects r v s p out t t' →
    out.object? = none → fault (.invalidExtends s.definition out.kindName) t'.memory

theorem Registry.resolveFrom_faults {r : Registry} (failed : (r.resolveFrom referencing name m).1 = .error e) :
    (r.find? name = none ∧ e = .unknownDefinition referencing name) ∨
      ∃ n finding, r.find? name = some n ∧ n.firstFlaw? r.engines.pattern .root = some finding ∧ e = .construction name finding := by
  have asked := resolveFrom_asked (r := r) referencing name m
  revert asked failed
  rcases r.resolveFrom referencing name m with reply
  intro failed asked
  cases asked with
  | unknown missing =>
    cases failed
    exact .inl ⟨missing, rfl⟩
  | rejected found _ flawed =>
    cases failed
    exact .inr ⟨_, _, found, flawed, rfl⟩
  | kept | accepted => cases failed

namespace Blame
variable {r : Registry} {v : Variant} (b : Blame r v) {s : Scope}

def Owns (x : Probe α) : Prop := ∀ t e t', x t = (.error e, t') → b.fault e t'.memory

variable {b}

theorem owns_pure {a : α} : b.Owns (pure a) := fun _ _ _ => nofun

theorem owns_bind {x : Probe α} {f : α → Probe β} (first : b.Owns x) (next : ∀ a, b.Owns (f a)) : b.Owns (x >>= f) := by
  intro t e t' failed
  rcases ran : x t with ⟨e' | a, t₁⟩
  · rw [Inquiry.bind_error ran] at failed
    cases failed
    exact first t e t' ran
  · rw [Inquiry.bind_ok ran] at failed
    exact next a t₁ e t' failed

theorem owns_ask {definition name : String}
    (unknown : ∀ m, r.find? name = none → b.fault (.unknownDefinition definition name) m) :
    b.Owns (Probe.ask (r.resolveFrom definition name)) := by
  intro t e t' failed
  have fault : (r.resolveFrom definition name t.memory).1 = .error e := congrArg Prod.fst failed
  rcases Registry.resolveFrom_faults fault with ⟨absent, rfl⟩ | ⟨n, finding, found, flaw, rfl⟩
  · exact unknown _ absent
  · exact b.flawed found flaw

theorem owns_settle {p : Probe (Option Node)} (inner : b.Owns p) (name : String) :
    b.Owns (settlePresence v name p) := by
  intro t e t' failed
  rw [settlePresence_eq] at failed
  rcases ran : p { t with leaned := false } with ⟨e' | kept, after⟩ <;> rw [ran] at failed <;> cases failed
  exact inner _ _ after ran

theorem presence_owns {name : String} (unknown : ∀ m, r.find? name = none → b.fault (.unknownDefinition s.definition name) m)
    (targets : ∀ target : r.Found name, name ∉ s.projecting →
      b.Owns (projectNode r v (.start name (name :: s.projecting)) target.val)) :
    b.Owns (isPresent r v s name) := by
  intro t e t' failed
  rw [isPresent_eq] at failed
  cases known : t.memory.recallPresence (name, v) with
  | some present =>
    rw [known] at failed
    cases failed
  | none =>
    rw [known] at failed
    dsimp only at failed
    by_cases busy : name ∈ s.projecting
    · rw [if_pos busy] at failed
      cases failed
    · rw [if_neg busy] at failed
      exact owns_bind (owns_ask unknown) (fun target => owns_settle (targets target busy) name) t e t' failed

theorem members_own {ms : List Node} (each : ∀ m ∈ ms, b.Owns (projectNode r v s m)) :
    b.Owns (projectMembers r v s ms) := by
  induction ms with
  | nil =>
    rw [projectMembers]
    exact owns_pure
  | cons m rest ih =>
    rw [projectMembers]
    refine owns_bind (each m List.mem_cons_self) fun _ => ?_
    exact owns_bind (ih fun n member => each n (List.mem_cons_of_mem _ member)) fun _ => owns_pure

theorem properties_own {ps : List (Property Node)}
    (each : ∀ p ∈ ps, p.restriction.includes v → b.Owns (projectNode r v s p.value)) :
    b.Owns (projectProperties r v s ps) := by
  induction ps with
  | nil =>
    rw [projectProperties]
    exact owns_pure
  | cons p rest ih =>
    have others := ih fun q member => each q (List.mem_cons_of_mem _ member)
    have value := each p List.mem_cons_self
    obtain ⟨name, n, restriction⟩ := p
    rw [projectProperties]
    split
    · rename_i kept
      exact owns_bind (value kept) fun _ => owns_bind others fun _ => owns_pure
    · exact others

theorem additional_owns {inherited own : Additional Node} (each : ∀ n ∈ own.nodes, b.Owns (projectNode r v s n)) :
    b.Owns (projectAdditional r v s inherited own) := by
  cases own with
  | shape n =>
    rw [projectAdditional]
    refine owns_bind (each n List.mem_cons_self) fun kept => ?_
    cases kept <;> exact owns_pure
  | _ =>
    rw [projectAdditional]
    exact owns_pure

theorem parents_own {ms before : List Node} {flattened : List (ObjectShape Node)} {merged : Merge}
    {additional : Additional Node}
    {origin : Nat} (flattens : flattenParents r v s before t₀ = (.ok flattened, t))
    (from_ : ∀ current, merged.From origin (contributions flattened) current) (each : ∀ m ∈ ms, b.Owns (projectParent r v s m))
    (collides : ∀ property t, ParentsClash r v s (before ++ ms) property t → b.fault (.extendsCollision s.definition property) t.memory)
    (failed : projectParents r v s origin merged additional ms t = (.error e, t')) : b.fault e t'.memory := by
  induction ms generalizing before flattened merged additional origin t with
  | nil =>
    rw [projectParents] at failed
    cases failed
  | cons n rest ih =>
    have later := fun m member => each m (List.mem_cons_of_mem n member)
    have collides' : ∀ property t, ParentsClash r v s ((before ++ [n]) ++ rest) property t →
        b.fault (.extendsCollision s.definition property) t.memory := by
      rw [List.append_assoc, List.singleton_append]
      exact collides
    rw [projectParents] at failed
    rcases ran : projectParent r v s n t with ⟨e' | parent, t₁⟩
    · rw [Inquiry.bind_error ran] at failed
      cases failed
      exact each n List.mem_cons_self t e t' ran
    · rw [Inquiry.bind_ok ran] at failed
      have more := flattenParents_concat flattens ran
      cases parent with
      | none =>
        rw [Option.toList_none, List.append_nil] at more
        refine ih more (fun current => ?_) later collides' failed
        have from' := (from_ []).next current
        rwa [List.append_nil] at from'
      | some o =>
        have inherited := (from_ o.properties).inherit fun _ => id
        dsimp only at failed
        cases inherits : merged.inherit origin o.properties with
        | error property =>
          rw [inherits] at failed inherited
          cases failed
          obtain ⟨q, earlier, q', given, name, name', differ⟩ := inherited
          exact collides property _ (.intro rfl flattens ran earlier given name name' differ)
        | ok after =>
          rw [inherits] at failed inherited
          refine ih more (fun current => ?_) later collides' failed
          rw [Option.toList_some, contributions_concat]
          exact inherited.next current

theorem object_owns {out : Option Node} {t : Trail}
    (foreign : ∀ n, out = some n → n.object? = none → b.fault (.invalidExtends s.definition n.kindName) t.memory)
    (failed : objectOf? s out t = (.error e, t')) : b.fault e t'.memory := by
  cases out with
  | none => cases failed
  | some n =>
    obtain ⟨shape, annotations, optionality, restriction, misuse⟩ := n
    cases shape <;> cases failed <;> exact foreign _ rfl rfl

theorem outcome_owns {x : Probe (Option Node)} (inner : b.Owns x)
    (foreign : ∀ t out t', x t = (.ok (some out), t') → out.object? = none → b.fault (.invalidExtends s.definition out.kindName) t'.memory) :
    b.Owns (x >>= objectOf? s) := by
  intro t e t' failed
  rcases ran : x t with ⟨e' | out, t₁⟩
  · rw [Inquiry.bind_error ran] at failed
    cases failed
    exact inner t e t' ran
  · rw [Inquiry.bind_ok ran] at failed
    exact object_owns (fun n some_ => foreign t n t₁ (some_ ▸ ran)) failed

theorem parent_owns {o : ObjectShape Node} {n p : Node} (here : b.here s n) (inside : n.restriction.includes v)
    (shape : n.shape = .object o) (listed : p ∈ o.parents)
    (inline_ : p.referenceName? = none → b.Owns (projectNode r v s p))
    (named : ∀ name (target : r.Found name), p.shape = .reference name → p.restriction.includes v → name ∉ s.chain →
      b.Owns (projectNode r v { s with definition := name, chain := name :: s.chain } target.val)) :
    b.Owns (projectParent r v s p) := by
  cases parent : p.referenceName? with
  | none =>
    rw [projectParent_inline parent]
    exact outcome_owns (inline_ parent) fun _ _ _ ran => b.foreign here inside shape listed (.inline_ parent ran)
  | some name =>
    have reference := Node.shape_of_referenceName parent
    rw [projectParent_named reference]
    by_cases visited : name ∈ s.chain
    · rw [if_pos visited]
      rintro t e t' ⟨⟩
      exact b.circular here inside shape listed reference visited
    · rw [if_neg visited]
      split
      · rename_i kept
        refine owns_bind (owns_ask fun _ unknown => b.missing here inside (.inr ⟨o, shape, p, listed, reference⟩) unknown) fun target => ?_
        exact outcome_owns (named name target reference kept visited) fun _ _ _ ran =>
          b.foreign here inside shape listed (.named reference target.property ran)
      · exact owns_pure

theorem shape_owns {n : Node} (here : b.here s n) (inside : n.restriction.includes v)
    (each : ∀ c ∈ n.shape.projectedNodes v, b.Owns (projectNode r v s c))
    (targets : ∀ name (target : r.Found name), n.shape = .reference name → name ∉ s.projecting →
      b.Owns (projectNode r v (.start name (name :: s.projecting)) target.val))
    (named : ∀ o, n.shape = .object o → ∀ p ∈ o.parents, ∀ name (target : r.Found name), p.shape = .reference name →
      p.restriction.includes v → name ∉ s.chain →
      b.Owns (projectNode r v { s with definition := name, chain := name :: s.chain } target.val)) :
    b.Owns (projectShape r v s n.shape) := by
  cases shape : n.shape with
  | object o =>
    rw [shape] at each
    obtain ⟨properties, additional, parents⟩ := o
    rw [projectShape]
    refine owns_bind (fun t e t' => ?_) fun _ => ?_
    · have nothing : flattenParents r v s [] t = (.ok [], t) := rfl
      refine parents_own nothing (fun _ => .nil _) (fun p listed => ?_) fun _ _ => b.collides here inside shape
      refine parent_owns here inside shape listed (fun unnamed => each p ?_) (named _ shape p listed)
      exact List.mem_append_right _ (List.mem_filter.2 ⟨listed, Option.isNone_iff_eq_none.2 unnamed⟩)
    · refine owns_bind (properties_own fun p listed kept => each p.value ?_) fun _ => ?_
      · exact List.mem_append_left _ (List.mem_append_left _ (List.mem_map_of_mem (List.mem_filter.2 ⟨listed, kept⟩)))
      · refine owns_bind (additional_owns fun c listed => each c ?_) fun _ => owns_pure
        exact List.mem_append_left _ (List.mem_append_right _ listed)
  | array item =>
    rw [shape] at each
    rw [projectShape]
    refine owns_bind (each item List.mem_cons_self) fun kept => ?_
    cases kept <;> exact owns_pure
  | union members =>
    rw [shape] at each
    rw [projectShape]
    refine owns_bind (members_own each) fun kept => ?_
    cases kept <;> exact owns_pure
  | reference name =>
    rw [projectShape]
    refine owns_bind (presence_owns (fun _ => b.missing here inside (.inl shape)) fun target => targets name target shape) ?_
    intro present
    cases present <;> exact owns_pure
  | linked declaration schema =>
    rw [shape] at each
    rw [projectShape]
    refine owns_bind (each declaration List.mem_cons_self) fun first => ?_
    refine owns_bind (each schema (List.mem_cons_of_mem _ List.mem_cons_self)) fun second => ?_
    cases first <;> cases second <;> exact owns_pure
  | _ =>
    rw [projectShape_leaf rfl]
    exact owns_pure

theorem node_owns (b : Blame r v) (s : Scope) (n : Node) (here : b.here s n) : b.Owns (projectNode r v s n) := by
  rw [projectNode_eq]
  split
  · rename_i inside
    refine owns_bind (shape_owns here inside ?_ ?_ ?_) fun kept => by cases kept <;> exact owns_pure
    · exact fun c child => node_owns b s c (b.inside here inside child)
    · exact fun name target shape free => node_owns b _ target.val (b.decided here inside shape target.property)
    · exact fun o shape p listed name target named kept fresh =>
        node_owns b _ target.val (b.merged here inside shape listed kept named fresh target.property)
  · exact owns_pure
termination_by (r.unvisited s.projecting, r.unvisited s.chain, sizeOf n)
decreasing_by
  · exact .right _ (.right _ (Node.sizeOf_child (Shape.child_of_projected child)))
  · exact .left _ _ (r.unvisited_cons_lt (r.mem_names_of_find? target.property) free)
  · exact .right _ (.left _ _ (r.unvisited_cons_lt (r.mem_names_of_find? target.property) fresh))

-- The faults of a definition's projection, from whatever is known before.
theorem definition_owns (b : Blame r v) {name : String}
    (unknown : ∀ m, r.find? name = none → b.fault (.unknownDefinition name name) m)
    (start : ∀ n, r.find? name = some n → b.here (.start name []) n)
    (failed : (r.projectDefinition name v m).1 = .error e) : b.fault e (r.projectDefinition name v m).2 := by
  have owned : b.Owns (Probe.ask (r.resolve name) >>= fun target => projectNode r v (.start name []) target.val) :=
    owns_bind (owns_ask unknown) fun target => node_owns b _ target.val (start _ target.property)
  have same : r.projectDefinition name v m =
      (Probe.ask (r.resolve name) >>= fun target => projectNode r v (.start name []) target.val).alone m := by
    dsimp only [Registry.projectDefinition, Probe.alone, Probe.ask, Inquiry.within, Bind.bind, Inquiry.bind]
    rcases r.resolve name m with ⟨e' | target, m'⟩ <;> rfl
  rw [same] at failed ⊢
  exact owned ⟨m, false⟩ e _ (Prod.ext failed rfl)

end Blame
end TwinShape
