import TwinShape.Proofs.InPlace.Descent
import TwinShape.Proofs.Projection.Presence

namespace TwinShape
namespace InPlace

-- The books of a registry: what is remembered, what is in progress, and how often something in
-- progress was taken to be present.
structure Cells where
  memory : Memory
  projecting : List (String × Variant)
  checking : List String
  assumed : Nat

abbrev Probing (α : Type) := Attempt Cells Fault α

def ask (q : Question α) : Probing α := Attempt.ask Cells.memory (fun c m => { c with memory := m }) q

-- The definition that is being projected, and those that it is merged into, innermost first.
structure Projector where
  definition : String
  chain : List String

def Projector.start (name : String) : Projector := ⟨name, [name]⟩

def settle (v : Variant) (name : String) (projected : Probing (Option Node)) : Probing Bool := fun c =>
  (projected { c with projecting := (name, v) :: c.projecting }).map fun
    | (.error e, after) => (.error e, { after with projecting := after.projecting.erase (name, v) })
    | (.ok kept, after) => (.ok kept.isSome,
        { after with
          projecting := after.projecting.erase (name, v)
          memory := if kept.isSome || after.assumed == c.assumed then after.memory.rememberPresence (name, v) kept.isSome
            else after.memory })

def objectOf (p : Projector) : Option Node → Probing (Option (ObjectShape Node))
  | none => pure none
  | some ⟨.object o, _, _, _, _⟩ => pure (some o)
  | some n => Attempt.fail (.invalidExtends p.definition n.kindName)

section
variable (r : Registry) (v : Variant)
  -- How a definition is projected that has to be entered.
  (enter : Projector → Node → Probing (Option Node))

def targetExists (p : Projector) (name : String) : Probing Bool := fun c =>
  match c.memory.recallPresence (name, v) with
  | some known => some (.ok known, c)
  | none =>
    if (name, v) ∈ c.projecting then some (.ok true, { c with assumed := c.assumed + 1 })
    else (ask (r.resolveFrom p.definition name) >>= fun target => settle v name (enter (.start name) target.val)) c

def namedParent (p : Projector) (name : String) (restriction : Restriction) : Probing (Option (ObjectShape Node)) :=
  if name ∈ p.chain then Attempt.fail (.cyclicExtends (p.chain.getLastD p.definition) (name :: p.chain).reverse)
  else if restriction.includes v then do
    let target ← ask (r.resolveFrom p.definition name)
    let parent ← enter ⟨name, name :: p.chain⟩ target.val
    objectOf p parent
  else pure none

mutual
def node (p : Projector) : Node → Probing (Option Node)
  | ⟨shape, annotations, optionality, restriction, _⟩ =>
    if restriction.includes v then do
      match ← shapeOf p shape with
      | some shape => pure (some ⟨shape, annotations, optionality, .unrestricted, []⟩)
      | none => pure none
    else pure none

def shapeOf (p : Projector) : Shape Node → Probing (Option (Shape Node))
  | .object ⟨properties, additional, parents⟩ => do
    let (merged, inherited) ← parentsOf p 0 [] .forbidden parents
    let own ← propertiesOf p properties
    let additional ← additionalOf p inherited additional
    pure (some (.object ⟨(merged.override own).properties, additional, []⟩))
  | .array item => do
    match ← node p item with
    | some item => pure (some (.array item))
    | none => pure none
  | .union members => do
    match ← membersOf p members with
    | [] => pure none
    | members => pure (some (.union members))
  | .reference name => do
    if ← targetExists r v enter p name then pure (some (.reference name)) else pure none
  | .linked declaration schema => do
    let declaration ← node p declaration
    let schema ← node p schema
    match declaration, schema with
    | some declaration, some schema => pure (some (.linked declaration schema))
    | _, _ => pure none
  | shape => pure (some shape)

def membersOf (p : Projector) : List Node → Probing (List Node)
  | [] => pure []
  | n :: rest => do
    let kept ← node p n
    let rest ← membersOf p rest
    pure (kept.toList ++ rest)

def propertiesOf (p : Projector) : List (Property Node) → Probing (List (Property Node))
  | [] => pure []
  | ⟨name, value, restriction⟩ :: rest =>
    if restriction.includes v then do
      let kept ← node p value
      let rest ← propertiesOf p rest
      pure ((kept.map fun value => ⟨name, value, .unrestricted⟩).toList ++ rest)
    else propertiesOf p rest

def additionalOf (p : Projector) (inherited : Additional Node) : Additional Node → Probing (Additional Node)
  | .forbidden => pure inherited
  | .allowed => pure .allowed
  | .shape n => do
    match ← node p n with
    | some n => pure (.shape n)
    | none => pure .forbidden

def parentsOf (p : Projector) (origin : Nat) (merged : Merge) (additional : Additional Node) :
    List Node → Probing (Merge × Additional Node)
  | [] => pure (merged, additional)
  | n :: rest =>
    (match n.referenceName? with
      | some name => namedParent r v enter p name n.restriction
      | none => node p n >>= objectOf p) >>= fun
    | none => parentsOf p (origin + 1) merged additional rest
    | some o =>
      match merged.inherit origin o.properties with
      | .error property => Attempt.fail (.extendsCollision p.definition property)
      | .ok merged => parentsOf p (origin + 1) merged (additional.inherit o.additional) rest
end
end

-- Definitions are entered to a limited depth.
def descend (r : Registry) (v : Variant) : Nat → Projector → Node → Probing (Option Node)
  | 0 => fun _ _ => Descent.giveUp
  | depth + 1 => node r v (descend r v depth)

-- A run that keeps its books in place, beside one that passes on what is in progress.
structure Books (start : Cells) (leaned : Bool) (t : Trail) (c : Cells) : Prop where
  memory : c.memory = t.memory
  projecting : c.projecting = start.projecting
  checking : c.checking = start.checking
  later : start.assumed ≤ c.assumed
  -- A probe has leaned on something in progress if the count has gone up.
  leaned : t.leaned = (leaned || decide (start.assumed < c.assumed))

def scopeProjector (s : Scope) : Projector := ⟨s.definition, s.chain⟩

section
variable {r : Registry} {v : Variant} {enter : Projector → Node → Probing (Option Node)} {scope : Scope}
  {start : Cells} {leaned : Bool}

abbrev Steps (start : Cells) (leaned : Bool) (x : Probe α) (y : Probing α) : Prop := Mirrors (Books start leaned) x y

theorem ask_steps (q : Question α) : Steps start leaned (Probe.ask q) (ask q) := by
  intro t c books
  refine ⟨{ c with memory := (q c.memory).2 }, ?_, ?_⟩
  · unfold ask Attempt.ask Probe.ask Inquiry.within
    rw [books.memory]
  · unfold Probe.ask Inquiry.within
    rw [books.memory]
    exact ⟨rfl, books.projecting, books.checking, books.later, books.leaned⟩

theorem object_steps (outcome : Option Node) :
    Steps start leaned (TwinShape.objectOf? scope outcome) (objectOf (scopeProjector scope) outcome) := by
  cases outcome with
  | none => exact .pure none
  | some n =>
    obtain ⟨shape, annotations, optionality, restriction, misuse⟩ := n
    cases shape with
    | object o => exact .pure (some o)
    | _ => exact .fail _

theorem members_step {ns : List Node}
    (each : ∀ n ∈ ns, Steps start leaned (projectNode r v scope n) (node r v enter (scopeProjector scope) n)) :
    Steps start leaned (projectMembers r v scope ns) (membersOf r v enter (scopeProjector scope) ns) := by
  induction ns with
  | nil =>
    rw [projectMembers, membersOf]
    exact .pure []
  | cons n rest ih =>
    rw [projectMembers, membersOf]
    refine .bind (each n List.mem_cons_self) fun kept => ?_
    exact .bind (ih fun m member => each m (List.mem_cons_of_mem _ member)) fun others => .pure _

theorem properties_step {ps : List (Property Node)}
    (each : ∀ n ∈ ps.map (·.value), Steps start leaned (projectNode r v scope n) (node r v enter (scopeProjector scope) n)) :
    Steps start leaned (projectProperties r v scope ps) (propertiesOf r v enter (scopeProjector scope) ps) := by
  induction ps with
  | nil =>
    rw [projectProperties, propertiesOf]
    exact .pure []
  | cons p rest ih =>
    have others := ih fun m member => each m (List.mem_cons_of_mem _ member)
    obtain ⟨name, value, restriction⟩ := p
    rw [projectProperties, propertiesOf]
    split
    · refine .bind (each value List.mem_cons_self) fun kept => ?_
      exact .bind others fun more => .pure _
    · exact others

theorem additional_steps {inherited own : Additional Node}
    (each : ∀ n ∈ own.nodes, Steps start leaned (projectNode r v scope n) (node r v enter (scopeProjector scope) n)) :
    Steps start leaned (projectAdditional r v scope inherited own) (additionalOf r v enter (scopeProjector scope) inherited own) := by
  cases own with
  | forbidden =>
    rw [projectAdditional, additionalOf]
    exact .pure inherited
  | allowed =>
    rw [projectAdditional, additionalOf]
    exact .pure _
  | shape n =>
    rw [projectAdditional, additionalOf]
    refine .bind (each n List.mem_cons_self) fun kept => ?_
    cases kept <;> exact .pure _

variable (targets : ∀ name (target : r.Found name), name ∉ scope.chain →
  Steps start leaned (projectNode r v { scope with definition := name, chain := name :: scope.chain } target.val)
    (enter ⟨name, name :: scope.chain⟩ target.val))
include targets

theorem parent_steps {n : Node}
    (inline_ : Steps start leaned (projectNode r v scope n) (node r v enter (scopeProjector scope) n)) :
    Steps start leaned (projectParent r v scope n) (match n.referenceName? with
      | some name => namedParent r v enter (scopeProjector scope) name n.restriction
      | none => node r v enter (scopeProjector scope) n >>= objectOf (scopeProjector scope)) := by
  cases named : n.referenceName? with
  | none =>
    rw [projectParent_inline named]
    exact .bind inline_ object_steps
  | some name =>
    rw [projectParent_named (Node.shape_of_referenceName named)]
    dsimp only [namedParent, scopeProjector]
    by_cases visited : name ∈ scope.chain
    · rw [if_pos visited, if_pos visited]
      exact .fail _
    · rw [if_neg visited, if_neg visited]
      split
      · refine .bind (ask_steps _) fun target => ?_
        exact .bind (targets name target visited) object_steps
      · exact .pure none

theorem parents_step {ns : List Node}
    (each : ∀ n ∈ ns, Steps start leaned (projectNode r v scope n) (node r v enter (scopeProjector scope) n))
    (origin : Nat) (merged : Merge) (additional : Additional Node) :
    Steps start leaned (projectParents r v scope origin merged additional ns)
      (parentsOf r v enter (scopeProjector scope) origin merged additional ns) := by
  induction ns generalizing origin merged additional with
  | nil =>
    rw [projectParents, parentsOf]
    exact .pure _
  | cons n rest ih =>
    have later := ih fun m member => each m (List.mem_cons_of_mem _ member)
    rw [projectParents, parentsOf]
    refine .bind (parent_steps targets (each n List.mem_cons_self)) fun parent => ?_
    cases parent with
    | none => exact later _ _ _
    | some o =>
      dsimp only
      cases merged.inherit origin o.properties with
      | error property => exact .fail _
      | ok merged => exact later _ _ _

-- Nodes are gone through alike; what is entered below is another matter.
theorem node_steps (present : ∀ name, Steps start leaned (isPresent r v scope name) (targetExists r v enter (scopeProjector scope) name))
    (n : Node) : Steps start leaned (projectNode r v scope n) (node r v enter (scopeProjector scope) n) := by
  induction n using Node.tree_induction with
  | node n each =>
    obtain ⟨shape, annotations, optionality, restriction, misuse⟩ := n
    change ∀ c ∈ shape.children, _ at each
    have shapes : Steps start leaned (projectShape r v scope shape) (shapeOf r v enter (scopeProjector scope) shape) := by
      cases shape with
      | object o =>
        obtain ⟨properties, additional, parents⟩ := o
        have own := fun c member => each c (List.mem_append_left _ member)
        rw [projectShape, shapeOf]
        refine .bind (parents_step targets (fun c member => each c (List.mem_append_right _ member)) 0 [] .forbidden) ?_
        rintro ⟨merged, inherited⟩
        refine .bind (properties_step fun c member => own c (List.mem_append_left _ member)) fun kept => ?_
        exact .bind (additional_steps fun c member => own c (List.mem_append_right _ member)) fun rest => .pure _
      | array item =>
        rw [projectShape, shapeOf]
        refine .bind (each item List.mem_cons_self) fun kept => ?_
        cases kept <;> exact .pure _
      | union members =>
        rw [projectShape, shapeOf]
        refine .bind (members_step each) fun kept => ?_
        cases kept <;> exact .pure _
      | reference name =>
        rw [projectShape, shapeOf]
        refine .bind (present name) fun found => ?_
        cases found <;> exact .pure _
      | linked declaration schema =>
        rw [projectShape, shapeOf]
        refine .bind (each declaration List.mem_cons_self) fun first => ?_
        refine .bind (each schema (List.mem_cons_of_mem _ List.mem_cons_self)) fun second => ?_
        cases first <;> cases second <;> exact .pure _
      | _ =>
        rw [projectShape_leaf rfl, shapeOf] <;> first | exact .pure _ | simp
    rw [projectNode, node]
    split
    · refine .bind shapes fun kept => ?_
      cases kept <;> exact .pure _
    · exact .pure none

end

-- While a check is in progress, what it leans on is counted from where it started.
theorem settle_steps {v : Variant} {start : Cells} {leaned : Bool} {x : Probe (Option Node)}
    {y : Probing (Option Node)} (name : String)
    (both : ∀ before : Cells, before.projecting = (name, v) :: start.projecting → before.checking = start.checking →
      Steps before false x y) : Steps start leaned (settlePresence v name x) (settle v name y) := by
  intro t c books
  let before : Cells := { c with projecting := (name, v) :: c.projecting }
  have entered : Books before false { t with leaned := false } before :=
    ⟨books.memory, rfl, rfl, Nat.le_refl _, by simp⟩
  obtain ⟨after, reached, kept⟩ := both before (by rw [← books.projecting]) books.checking _ _ entered
  rw [settlePresence_eq]
  unfold settle
  rw [reached]
  have left : after.projecting.erase (name, v) = start.projecting := by
    rw [kept.projecting, ← books.projecting]
    exact List.erase_cons_head _ _
  have later : start.assumed ≤ after.assumed := Nat.le_trans books.later kept.later
  -- Leaning below is leaning here.
  have leant : (t.leaned || (x { t with leaned := false }).2.leaned) = (leaned || decide (start.assumed < after.assumed)) := by
    have below : c.assumed ≤ after.assumed := kept.later
    have here := books.later
    have said : (x { t with leaned := false }).2.leaned = decide (c.assumed < after.assumed) := by
      rw [kept.leaned, Bool.false_or]
    rw [books.leaned, said, Bool.or_assoc]
    congr 1
    rw [← Bool.decide_or]
    exact decide_eq_decide.2 (by omega)
  have unleant : (x { t with leaned := false }).2.leaned = !(after.assumed == c.assumed) := by
    have below : c.assumed ≤ after.assumed := kept.later
    rw [kept.leaned, Bool.false_or]
    by_cases same : after.assumed = c.assumed
    · simp [same, before]
    · have more : c.assumed < after.assumed := by omega
      simp [before, same, more]
  have memory := kept.memory
  have checking : after.checking = start.checking := kept.checking.trans books.checking
  revert leant unleant memory
  rcases x { t with leaned := false } with ⟨e | kept, u⟩ <;> intro leant unleant memory
  · exact ⟨_, rfl, memory, left, checking, later, leant⟩
  · refine ⟨_, rfl, ?_, left, checking, later, leant⟩
    dsimp only at unleant memory ⊢
    rw [unleant, Bool.not_not, memory]

theorem presence_steps {r : Registry} {v : Variant} {enter : Projector → Node → Probing (Option Node)} {scope : Scope}
    {start : Cells} {leaned : Bool} (level : start.projecting = scope.projecting.map (·, v)) (name : String)
    (inside : ∀ (target : r.Found name) (before : Cells), name ∉ scope.projecting →
      before.projecting = (name :: scope.projecting).map (·, v) → before.checking = start.checking →
      Steps before false (projectNode r v (.start name (name :: scope.projecting)) target.val) (enter (.start name) target.val)) :
    Steps start leaned (isPresent r v scope name) (targetExists r v enter (scopeProjector scope) name) := by
  intro t c books
  have busy_iff : (name, v) ∈ c.projecting ↔ name ∈ scope.projecting := by
    rw [books.projecting, level, List.mem_map]
    exact ⟨fun ⟨other, member, same⟩ => (Prod.mk.inj same).1 ▸ member, fun member => ⟨name, member, rfl⟩⟩
  rw [isPresent_eq]
  unfold targetExists
  rw [books.memory]
  cases t.memory.recallPresence (name, v) with
  | some known => exact ⟨c, rfl, books⟩
  | none =>
    dsimp only
    by_cases busy : name ∈ scope.projecting
    · rw [if_pos busy, if_pos (busy_iff.2 busy)]
      refine ⟨_, rfl, rfl, books.projecting, books.checking, Nat.le_succ_of_le books.later, ?_⟩
      have here := books.later
      have more : start.assumed < c.assumed + 1 := by omega
      simp [more]
    · rw [if_neg busy, if_neg fun member => busy (busy_iff.1 member)]
      refine Mirrors.bind (ask_steps _) (fun target => ?_) t c books
      refine settle_steps name fun before projecting checking => inside target before busy ?_ checking
      rw [projecting, level]
      rfl

theorem unvisited_le (r : Registry) (visited : List String) : r.unvisited visited ≤ r.definitions.length :=
  Nat.le_trans List.countP_le_length (Nat.le_of_eq (List.length_map _))

-- Each definition that is entered leaves fewer to enter: to be merged into others, or else to be checked.
theorem descend_steps (r : Registry) (v : Variant) (depth : Nat) {s : Scope} {start : Cells} {leaned : Bool}
    (level : start.projecting = s.projecting.map (·, v))
    (enough : r.unvisited s.projecting * (r.definitions.length + 1) + r.unvisited s.chain < depth) (n : Node) :
    Steps start leaned (projectNode r v s n) (descend r v depth (scopeProjector s) n) := by
  induction depth generalizing s start leaned n with
  | zero => exact absurd enough (Nat.not_lt_zero _)
  | succ depth ih =>
    refine node_steps (fun name target fresh => ?_) (fun name => ?_) n
    · have fewer := r.unvisited_cons_lt (r.mem_names_of_find? target.property) fresh
      exact ih (s := { s with definition := name, chain := name :: s.chain }) level (by dsimp only; omega) target.val
    · refine presence_steps level name fun target before fresh projecting checking => ?_
      have fewer := r.unvisited_cons_lt (r.mem_names_of_find? target.property) fresh
      have chained := unvisited_le r [name]
      refine ih (s := .start name (name :: s.projecting)) projecting ?_ target.val
      have room := Nat.mul_le_mul_right (r.definitions.length + 1) (Nat.succ_le_of_lt fewer)
      rw [Nat.succ_mul] at room
      dsimp only [Scope.start]
      omega

end InPlace
end TwinShape
