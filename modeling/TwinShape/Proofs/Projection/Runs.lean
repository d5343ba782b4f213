import TwinShape.Proofs.Projection.Merging

namespace TwinShape

theorem projectNode_eq (n : Node) :
    projectNode r v scope n = if n.restriction.includes v then do
        match ← projectShape r v scope n.shape with
        | some shape => pure (some (n.rebuilt shape))
        | none => pure none
      else pure none := by
  obtain ⟨shape, annotations, optionality, restriction, misuse⟩ := n
  rw [projectNode]
  rfl

theorem projectNode_outside {n : Node} (out : n.outside v) : projectNode r v scope n = pure none := by
  obtain ⟨shape, annotations, optionality, restriction, misuse⟩ := n
  rw [projectNode, if_neg (by simpa [Node.outside] using out)]

theorem projectMembers_outside {n : Node} (out : n.outside v) (rest : List Node) :
    projectMembers r v scope (n :: rest) = projectMembers r v scope rest := by
  rw [projectMembers, projectNode_outside out]
  exact Inquiry.bind_pure _

theorem projectProperties_outside {p : Property Node} (out : p.outside v)
    (rest : List (Property Node)) :
    projectProperties r v scope (p :: rest) = projectProperties r v scope rest := by
  obtain ⟨name, value, restriction⟩ := p
  rw [projectProperties]
  split
  · rename_i kept
    rcases out with out | out
    · exact absurd kept (by simpa using out)
    · rw [projectNode_outside out]
      exact Inquiry.bind_pure _
  · rfl

theorem projectShape_leaf {s : Shape Node} (leaf : s.isLeaf) :
    projectShape r v scope s = pure (some s) := by
  cases s <;> first | exact absurd leaf Bool.false_ne_true | (rw [projectShape] <;> simp)

theorem projectParent_inline {n : Node} (inline_ : n.referenceName? = none) :
    projectParent r v scope n = projectNode r v scope n >>= objectOf? scope := by
  rw [projectParent]
  intro name a o ρ m same
  rw [same] at inline_
  cases inline_

theorem Node.shape_of_referenceName {n : Node} (named : n.referenceName? = some name) : n.shape = .reference name := by
  obtain ⟨shape, annotations, optionality, restriction, misuse⟩ := n
  cases shape <;> cases named
  rfl

theorem projectParent_named {n : Node} (named : n.shape = .reference name) :
    projectParent r v scope n =
      if name ∈ scope.chain then Inquiry.fail (.cyclicExtends scope.entry (name :: scope.chain).reverse)
      else if n.restriction.includes v then do
        let target ← Probe.ask (r.resolveFrom scope.definition name)
        let parent ← projectNode r v { scope with definition := name, chain := name :: scope.chain } target.val
        objectOf? scope parent
      else pure none := by
  obtain ⟨shape, annotations, optionality, restriction, misuse⟩ := n
  cases named
  rw [projectParent]
  rfl

-- A parent that does not exist in the variant is skipped, unless its name is on the chain.
theorem projectParent_outside {n : Node} (out : n.outside v) :
    projectParent r v scope n = match n.referenceName? with
      | some name => if name ∈ scope.chain then
          Inquiry.fail (.cyclicExtends scope.entry (name :: scope.chain).reverse) else pure none
      | none => pure none := by
  cases named : n.referenceName? with
  | none =>
    rw [projectParent_inline named, projectNode_outside out]
    rfl
  | some name =>
    rw [projectParent_named (Node.shape_of_referenceName named),
      if_neg (show ¬n.restriction.includes v = true by simpa [Node.outside] using out)]

theorem projectParent_idle {n : Node} (out : n.outside v) (t : Trail) :
    projectParent r v scope n t = (.ok none, t) ∨
      ∃ e t', projectParent r v scope n t = (.error e, t') := by
  rw [projectParent_outside out]
  cases n.referenceName? with
  | none => exact .inl rfl
  | some name =>
    dsimp only
    by_cases visited : name ∈ scope.chain
    · rw [if_pos visited]
      exact .inr ⟨_, _, rfl⟩
    · rw [if_neg visited]
      exact .inl rfl

namespace Simulation
variable {r₁ r₂ : Registry} {v₁ v₂ : Variant} (sim : Simulation r₁ r₂ v₁ v₂)

abbrev Runs (P : α → β → Prop) (x : Probe α) (y : Probe β) : Prop :=
  Alongside sim.strict sim.view P x y

def Projected (s t s' t' : Shape Node) : Prop :=
  s.isLeaf ∧ t.isLeaf ∧ s' = s ∧ t' = t ∨
    s.isLeaf = false ∧ AfterProjection sim.result s' t' ∧ s'.Distinct

def ParentsMerged (a b : Merge × Additional Node) : Prop :=
  Table.Rel (Contributed sim.result) a.1 b.1 ∧ a.1.keys.Nodup ∧ Additional.Both sim.result a.2 b.2

def ObjectsBoth (o o' : ObjectShape Node) : Prop :=
  List.Forall₂ (Property.Both sim.result) o.properties o'.properties ∧
    Additional.Both sim.result o.additional o'.additional

def NodesRun (scope : Scope) (m n : Node) : Prop :=
  sim.Runs (Option.Rel sim.result) (projectNode r₁ v₁ scope m) (projectNode r₂ v₂ scope n)

def ParentsRun (scope : Scope) (m n : Node) : Prop :=
  sim.Runs (Option.Rel sim.ObjectsBoth) (projectParent r₁ v₁ scope m) (projectParent r₂ v₂ scope n)

variable {sim}

theorem object_run {a b : Option Node} (related : Option.Rel sim.result a b) (scope : Scope) :
    sim.Runs (Option.Rel sim.ObjectsBoth) (objectOf? scope a) (objectOf? scope b) := by
  cases related with
  | none => exact .pure .none
  | @some m n nodes =>
    obtain ⟨s, annotations, optionality, restriction, misuse⟩ := m
    obtain ⟨t, annotations', optionality', restriction', misuse'⟩ := n
    rcases sim.opened nodes with inner | ⟨leaf, leaf', kinds⟩
    · cases inner with
      | object properties additional => exact .pure (.some ⟨properties, additional⟩)
      | array | union | reference | linked => exact .fail fun _ => rfl
    · cases s <;> first
        | exact absurd leaf Bool.false_ne_true
        | (cases t <;> first
            | exact absurd leaf' Bool.false_ne_true
            | exact .fail fun exact_ => congrArg _ (kinds exact_))

theorem inherit_additional {a b a' b' : Additional Node} (before : Additional.Both sim.result a b)
    (parent : Additional.Both sim.result a' b') :
    Additional.Both sim.result (a.inherit a') (b.inherit b') := by
  cases parent with
  | forbidden => exact before
  | allowed => exact .allowed
  | shape nodes => exact .shape nodes

variable {scope : Scope}

theorem members_run {ms ns : List Node} (aligned : Aligned (Node.outside v₁) (Node.outside v₂) sim.source ms ns)
    (each : ∀ m ∈ ms, ∀ n, sim.source m n → sim.NodesRun scope m n) :
    sim.Runs (List.Forall₂ sim.result) (projectMembers r₁ v₁ scope ms) (projectMembers r₂ v₂ scope ns) := by
  induction aligned with
  | nil =>
    rw [projectMembers, projectMembers]
    exact .pure .nil
  | both head rest ih =>
    have heads := each _ List.mem_cons_self _ head
    rw [projectMembers, projectMembers]
    refine .bind heads fun a b kept => ?_
    refine .bind (ih fun m member => each m (List.mem_cons_of_mem _ member)) fun _ _ others => ?_
    cases kept with
    | none => exact .pure others
    | some nodes => exact .pure (.cons nodes others)
  | left dropped rest ih =>
    rw [projectMembers_outside dropped]
    exact ih fun m member => each m (List.mem_cons_of_mem _ member)
  | right dropped rest ih =>
    rw [projectMembers_outside dropped]
    exact ih each

theorem properties_run {ps qs : List (Property Node)}
    (aligned : Aligned (Property.outside v₁) (Property.outside v₂)
      (fun p q => p.name = q.name ∧ p.restriction.includes v₁ = q.restriction.includes v₂ ∧
        sim.source p.value q.value) ps qs)
    (each : ∀ m ∈ ps.map (·.value), ∀ n, sim.source m n → sim.NodesRun scope m n) :
    sim.Runs (List.Forall₂ (Property.Both sim.result))
      (projectProperties r₁ v₁ scope ps) (projectProperties r₂ v₂ scope qs) := by
  induction aligned with
  | nil =>
    rw [projectProperties, projectProperties]
    exact .pure .nil
  | @both p q ps qs head rest ih =>
    have others := ih fun m member => each m (List.mem_cons_of_mem _ member)
    have values := each _ List.mem_cons_self _ head.2.2
    obtain ⟨name, value, restriction⟩ := p
    obtain ⟨name', value', restriction'⟩ := q
    obtain ⟨rfl, includes, _⟩ := head
    dsimp only at includes values
    rw [projectProperties, projectProperties]
    by_cases kept : restriction.includes v₁ = true
    · rw [if_pos kept, if_pos (includes ▸ kept)]
      refine .bind values fun a b nodes => ?_
      refine .bind others fun _ _ others => ?_
      cases nodes with
      | none => exact .pure others
      | some both => exact .pure (.cons (.intro _ both) others)
    · rw [if_neg kept, if_neg fun kept' => kept (includes ▸ kept')]
      exact others
  | left dropped rest ih =>
    rw [projectProperties_outside dropped]
    exact ih fun m member => each m (List.mem_cons_of_mem _ member)
  | right dropped rest ih =>
    rw [projectProperties_outside dropped]
    exact ih each

theorem additional_run {a b c d : Additional Node} (own : Additional.Both sim.source a b)
    (inherited : Additional.Both sim.result c d)
    (each : ∀ m ∈ a.nodes, ∀ n, sim.source m n → sim.NodesRun scope m n) :
    sim.Runs (Additional.Both sim.result)
      (projectAdditional r₁ v₁ scope c a) (projectAdditional r₂ v₂ scope d b) := by
  cases own with
  | forbidden =>
    rw [projectAdditional, projectAdditional]
    exact .pure inherited
  | allowed =>
    rw [projectAdditional, projectAdditional]
    exact .pure .allowed
  | shape nodes =>
    rw [projectAdditional, projectAdditional]
    refine .bind (each _ (List.mem_singleton.2 rfl) _ nodes) fun a b kept => ?_
    cases kept with
    | none => exact .pure .forbidden
    | some both => exact .pure (.shape both)

theorem inherit_run {o o' : Nat} {m m' : Merge} {p q : ObjectShape Node}
    {f : Merge → Probe (Merge × Additional Node)} {g : Merge → Probe (Merge × Additional Node)}
    (objects : sim.ObjectsBoth p q)
    (merged : Table.Rel (Inherited sim.result (Earlier o o')) m m') (distinct : m.keys.Nodup)
    (next : ∀ after after', Table.Rel (Inherited sim.result (Earlier (o + 1) (o' + 1))) after after' →
      after.keys.Nodup → sim.Runs sim.ParentsMerged (f after) (g after')) :
    sim.Runs sim.ParentsMerged
      (match m.inherit o p.properties with
        | .error property => Inquiry.fail (.extendsCollision scope.definition property)
        | .ok after => f after)
      (match m'.inherit o' q.properties with
        | .error property => Inquiry.fail (.extendsCollision scope.definition property)
        | .ok after => g after) := by
  have outcome := Merge.inherit_both (fun exact_ : sim.strict => sim.same exact_)
    objects.1 (Merge.rel_upTo merged)
  cases first : m.inherit o p.properties with
  | error property =>
    cases second : m'.inherit o' q.properties with
    | error property' =>
      rw [first, second] at outcome
      exact .fail fun exact_ => congrArg _ (outcome exact_)
    | ok after' =>
      rw [first, second] at outcome
      exact .failLeft outcome
  | ok after =>
    cases second : m'.inherit o' q.properties with
    | error property' =>
      rw [first, second] at outcome
      exact .failRight outcome
    | ok after' =>
      rw [first, second] at outcome
      exact next after after' (Merge.rel_earlier outcome) (Merge.keys_nodup_inherit distinct o first)

theorem parents_run {ms ns : List Node}
    (aligned : Aligned (fun n => ¬sim.strict ∧ n.outside v₁) (fun n => ¬sim.strict ∧ n.outside v₂) sim.source ms ns)
    (each : ∀ m ∈ ms, ∀ n, sim.source m n → sim.ParentsRun scope m n)
    {o o' : Nat} {m m' : Merge} {a b : Additional Node}
    (merged : Table.Rel (Inherited sim.result (Earlier o o')) m m') (distinct : m.keys.Nodup)
    (further : Additional.Both sim.result a b) :
    sim.Runs sim.ParentsMerged
      (projectParents r₁ v₁ scope o m a ms) (projectParents r₂ v₂ scope o' m' b ns) := by
  induction aligned generalizing o o' m m' a b with
  | nil =>
    rw [projectParents, projectParents]
    exact .pure ⟨merged.weaken fun _ _ _ h => ⟨h.1, h.2.1⟩, distinct, further⟩
  | both head rest ih =>
    have later := fun m member => each m (List.mem_cons_of_mem _ member)
    rw [projectParents, projectParents]
    refine .bind (each _ List.mem_cons_self _ head) fun p q objects => ?_
    cases objects with
    | none => exact ih later (Merge.rel_later merged (Nat.le_succ _) (Nat.le_succ _)) distinct further
    | some objects =>
      exact inherit_run objects merged distinct fun after after' merged distinct =>
        ih later merged distinct (inherit_additional further objects.2)
  | left dropped rest ih =>
    rw [projectParents]
    exact .skipLeft dropped.1 (projectParent_idle dropped.2)
      (ih (fun m member => each m (List.mem_cons_of_mem _ member))
        (Merge.rel_later merged (Nat.le_succ _) (Nat.le_refl _)) distinct further)
  | right dropped rest ih =>
    rw [projectParents.eq_2 r₂]
    exact .skipRight dropped.1 (projectParent_idle dropped.2)
      (ih each (Merge.rel_later merged (Nat.le_refl _) (Nat.le_succ _)) distinct further)

theorem parent_run {m n : Node} (related : sim.source m n) (nodes : sim.NodesRun scope m n)
    (targets : ∀ name (target : r₁.Found name) (target' : r₂.Found name), name ∉ scope.chain →
      sim.source target.val target'.val →
      sim.NodesRun { scope with definition := name, chain := name :: scope.chain } target.val target'.val) :
    sim.ParentsRun scope m n := by
  have includes := sim.includes related
  unfold ParentsRun
  by_cases kept : m.restriction.includes v₁ = true
  · have before := sim.shapes related kept
    cases named : m.referenceName? with
    | none =>
      rw [projectParent_inline named, projectParent_inline (before.referenceName named)]
      exact .bind nodes fun _ _ both => object_run both scope
    | some name =>
      have shape := Node.shape_of_referenceName named
      rw [shape] at before
      obtain ⟨known, shape'⟩ := before.of_reference
      rw [projectParent_named shape, projectParent_named shape']
      by_cases visited : name ∈ scope.chain
      · rw [if_pos visited, if_pos visited]
        exact .fail fun _ => rfl
      · rw [if_neg visited, if_neg visited, if_pos kept, if_pos (includes ▸ kept)]
        refine .bind (sim.resolve known) fun target target' both => ?_
        exact .bind (targets _ target target' visited both) fun _ _ both => object_run both scope
  · have out : m.outside v₁ := by simpa [Node.outside] using kept
    have out' : n.outside v₂ := by simpa [Node.outside, ← includes] using kept
    by_cases exact_ : sim.strict
    · rw [projectParent_outside out, projectParent_outside out', sim.referenceName exact_ related]
      cases n.referenceName? with
      | none => exact .pure .none
      | some name =>
        dsimp only
        by_cases visited : name ∈ scope.chain
        · rw [if_pos visited]
          exact .fail fun _ => rfl
        · rw [if_neg visited]
          exact .pure .none
    · exact .idle exact_ (projectParent_idle out) (projectParent_idle out') .none

theorem shape_run {s t : Shape Node}
    (before : BeforeProjection v₁ v₂ sim.strict sim.named sim.source s t)
    (decided : ∀ name, sim.named name → sim.Runs Eq (isPresent r₁ v₁ scope name) (isPresent r₂ v₂ scope name))
    (each : ∀ m ∈ s.children, ∀ n, sim.source m n → sim.NodesRun scope m n)
    (parents : ∀ m ∈ s.children, ∀ n, sim.source m n → sim.ParentsRun scope m n) :
    sim.Runs (Option.Rel (sim.Projected s t)) (projectShape r₁ v₁ scope s) (projectShape r₂ v₂ scope t) := by
  cases before with
  | object properties additional extended =>
    have inside := fun m member => each m (List.mem_append_left _ member)
    rw [projectShape, projectShape]
    refine .bind (parents_run extended (fun m member => parents m (List.mem_append_right _ member))
      .nil List.nodup_nil .forbidden) ?_
    rintro ⟨merged, inherited⟩ ⟨merged', inherited'⟩ ⟨entries, distinct, further⟩
    refine .bind (properties_run properties fun m member => inside m (List.mem_append_left _ member))
      fun own own' owned => ?_
    refine .bind (additional_run additional further fun m member => inside m (List.mem_append_right _ member))
      fun _ _ rest => ?_
    have all := Merge.override_both owned entries
    refine .pure (.some (.inr ⟨rfl, .object (Merge.properties_both all) rest, ?_⟩))
    intro o same
    cases same
    rw [Merge.names_properties all]
    exact Merge.keys_nodup_override distinct own
  | array item =>
    rw [projectShape, projectShape]
    refine .bind (each _ List.mem_cons_self _ item) fun a b items => ?_
    cases items with
    | none => exact .pure .none
    | some nodes => exact .pure (.some (.inr ⟨rfl, .array nodes, fun _ same => by cases same⟩))
  | union members =>
    rw [projectShape, projectShape]
    refine .bind (members_run members each) fun a b nodes => ?_
    cases nodes with
    | nil => exact .pure .none
    | cons head rest =>
      exact .pure (.some (.inr ⟨rfl, .union (List.cons_ne_nil _ _) (.cons head rest), fun _ same => by cases same⟩))
  | reference known =>
    rw [projectShape, projectShape]
    refine .bind (decided _ known) fun a b same => ?_
    subst same
    cases a with
    | false => exact .pure .none
    | true => exact .pure (.some (.inr ⟨rfl, .reference _, fun _ same => by cases same⟩))
  | linked declaration schema =>
    rw [projectShape, projectShape]
    refine .bind (each _ List.mem_cons_self _ declaration) fun d d' declarations => ?_
    refine .bind (each _ (List.mem_cons_of_mem _ List.mem_cons_self) _ schema) fun s s' schemas => ?_
    cases declarations with
    | none => cases schemas <;> exact .pure .none
    | some first =>
      cases schemas with
      | none => exact .pure .none
      | some second => exact .pure (.some (.inr ⟨rfl, .linked first second, fun _ same => by cases same⟩))
  | leaf first second =>
    rw [projectShape_leaf first, projectShape_leaf second]
    exact .pure (.some (.inl ⟨first, second, rfl, rfl⟩))

-- Two runs agree on related nodes as soon as they agree on presence checks one level down.
-- The recursion is that of the first run: into the tree, and along chains of parents.
theorem node_run {busy : List String}
    (decided : ∀ scope name, scope.projecting = busy → sim.named name →
      sim.Runs Eq (isPresent r₁ v₁ scope name) (isPresent r₂ v₂ scope name))
    {m n : Node} (related : sim.source m n) (scope : Scope) (level : scope.projecting = busy) :
    sim.NodesRun scope m n := by
  have each : ∀ c ∈ m.children, ∀ c', sim.source c c' → sim.NodesRun scope c c' :=
    fun c child c' nodes => node_run decided nodes scope level
  have targets : ∀ name (target : r₁.Found name) (target' : r₂.Found name), name ∉ scope.chain →
      sim.source target.val target'.val →
      sim.NodesRun { scope with definition := name, chain := name :: scope.chain } target.val target'.val :=
    fun name target target' fresh nodes => node_run decided nodes _ level
  have includes := sim.includes related
  unfold NodesRun
  rw [projectNode_eq, projectNode_eq]
  by_cases kept : m.restriction.includes v₁ = true
  · rw [if_pos kept, if_pos (includes ▸ kept)]
    refine .bind (shape_run (sim.shapes related kept) (fun name => decided scope name level) each
      fun c child c' nodes => parent_run nodes (each c child c' nodes) targets) ?_
    intro s' t' projected
    cases projected with
    | none => exact .pure .none
    | some shapes =>
      rcases shapes with ⟨leaf, leaf', rfl, rfl⟩ | ⟨inner, after, distinct⟩
      · exact .pure (.some (sim.leaf related kept leaf leaf'))
      · exact .pure (.some (sim.inner related kept inner after distinct))
  · rw [if_neg kept, if_neg fun kept' => kept (includes ▸ kept')]
    exact .pure .none
termination_by (r₁.unvisited scope.chain, sizeOf m)
decreasing_by
  · exact .right _ (Node.sizeOf_child child)
  · exact .left _ _ (r₁.unvisited_cons_lt (r₁.mem_names_of_find? target.property) fresh)

end Simulation
end TwinShape
