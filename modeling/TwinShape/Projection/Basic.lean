import TwinShape.Projection.Merge
import TwinShape.Registry.Memory

namespace TwinShape

-- Where a projection stands. Both lists have the innermost name first.
structure Scope where
  -- The definition that faults are blamed on.
  definition : String
  -- Definitions whose properties are being merged into one another.
  chain : List String
  -- Definitions whose presence is being decided.
  projecting : List String

def Scope.start (definition : String) (projecting : List String) : Scope :=
  ⟨definition, [definition], projecting⟩

def Scope.entry (s : Scope) : String := s.chain.getLastD s.definition

-- What a projection knows, and whether it has leaned on the assumption that a
-- definition whose presence is still being decided is present.
structure Trail where
  memory : Memory
  leaned : Bool

abbrev Probe (α : Type) := Inquiry Trail Fault α

namespace Probe

def ask {α : Type} (q : Question α) : Probe α :=
  Inquiry.within Trail.memory (fun t m => { t with memory := m }) q

-- Tells whether the probe itself has leaned. What it leaned on counts for the surrounding one
-- as well.
def watch {α : Type} (p : Probe α) : Probe (α × Bool) := fun t =>
  match p { t with leaned := false } with
  | (.ok a, after) => (.ok (a, after.leaned), { after with leaned := t.leaned || after.leaned })
  | (.error e, after) => (.error e, { after with leaned := t.leaned || after.leaned })

end Probe

def objectOf? (scope : Scope) : Option Node → Probe (Option (ObjectShape Node))
  | none => pure none
  | some ⟨.object o, _, _, _, _⟩ => pure (some o)
  | some n => Inquiry.fail (.invalidExtends scope.definition n.kindName)

mutual
-- Nested presence checks are entered once per definition, and within one of them a chain of
-- parents visits a definition once, so the recursion ends on every registry.
def projectNode (r : Registry) (v : Variant) (scope : Scope) (n : Node) : Probe (Option Node) :=
  match n with
  | ⟨shape, annotations, optionality, restriction, _⟩ =>
    if restriction.includes v then do
      match ← projectShape r v scope shape with
      | some shape => pure (some ⟨shape, annotations, optionality, .unrestricted, []⟩)
      | none => pure none
    else pure none
termination_by (r.unvisited scope.projecting, r.unvisited scope.chain, sizeOf n, 0)

def projectShape (r : Registry) (v : Variant) (scope : Scope) (shape : Shape Node) :
    Probe (Option (Shape Node)) :=
  match shape with
  | .object ⟨properties, additional, parents⟩ => do
    let (merged, inherited) ← projectParents r v scope 0 [] .forbidden parents
    let own ← projectProperties r v scope properties
    let additional ← projectAdditional r v scope inherited additional
    pure (some (.object ⟨(merged.override own).properties, additional, []⟩))
  | .array item => do
    match ← projectNode r v scope item with
    | some item => pure (some (.array item))
    | none => pure none
  | .union members => do
    match ← projectMembers r v scope members with
    | [] => pure none
    | members => pure (some (.union members))
  | .reference name => do
    if ← isPresent r v scope name then pure (some (.reference name)) else pure none
  | .linked declaration schema => do
    let declaration ← projectNode r v scope declaration
    let schema ← projectNode r v scope schema
    match declaration, schema with
    | some declaration, some schema => pure (some (.linked declaration schema))
    | _, _ => pure none
  | shape => pure (some shape)
termination_by (r.unvisited scope.projecting, r.unvisited scope.chain, sizeOf shape, 0)

def projectMembers (r : Registry) (v : Variant) (scope : Scope) (members : List Node) :
    Probe (List Node) :=
  match members with
  | [] => pure []
  | n :: rest => do
    let kept ← projectNode r v scope n
    let rest ← projectMembers r v scope rest
    pure (kept.toList ++ rest)
termination_by (r.unvisited scope.projecting, r.unvisited scope.chain, sizeOf members, 0)

def projectProperties (r : Registry) (v : Variant) (scope : Scope)
    (properties : List (Property Node)) : Probe (List (Property Node)) :=
  match properties with
  | [] => pure []
  | ⟨name, value, restriction⟩ :: rest =>
    if restriction.includes v then do
      let kept ← projectNode r v scope value
      let rest ← projectProperties r v scope rest
      pure ((kept.map fun value => ⟨name, value, .unrestricted⟩).toList ++ rest)
    else projectProperties r v scope rest
termination_by (r.unvisited scope.projecting, r.unvisited scope.chain, sizeOf properties, 0)

-- A setting of its own wins over the inherited one, even if its shape does not exist.
def projectAdditional (r : Registry) (v : Variant) (scope : Scope) (inherited : Additional Node)
    (own : Additional Node) : Probe (Additional Node) :=
  match own with
  | .forbidden => pure inherited
  | .allowed => pure .allowed
  | .shape n => do
    match ← projectNode r v scope n with
    | some n => pure (.shape n)
    | none => pure .forbidden
termination_by (r.unvisited scope.projecting, r.unvisited scope.chain, sizeOf own, 0)

-- Each parent is merged before the next one is looked at.
def projectParents (r : Registry) (v : Variant) (scope : Scope) (origin : Nat) (merged : Merge)
    (additional : Additional Node) (parents : List Node) : Probe (Merge × Additional Node) :=
  match parents with
  | [] => pure (merged, additional)
  | n :: rest => do
    match ← projectParent r v scope n with
    | none => projectParents r v scope (origin + 1) merged additional rest
    | some o =>
      match merged.inherit origin o.properties with
      | .error property => Inquiry.fail (.extendsCollision scope.definition property)
      | .ok merged =>
        projectParents r v scope (origin + 1) merged (additional.inherit o.additional) rest
termination_by (r.unvisited scope.projecting, r.unvisited scope.chain, sizeOf parents, 0)

-- A parent by name is merged as its own definition. A name on the chain is a cycle
-- even if the reference does not exist in the variant.
def projectParent (r : Registry) (v : Variant) (scope : Scope) (n : Node) :
    Probe (Option (ObjectShape Node)) :=
  match n with
  | ⟨.reference name, _, _, restriction, _⟩ =>
    if _visited : name ∈ scope.chain then
      Inquiry.fail (.cyclicExtends scope.entry (name :: scope.chain).reverse)
    else if restriction.includes v then do
      let ⟨target, _found⟩ ← Probe.ask (r.resolveFrom scope.definition name)
      let parent ← projectNode r v { scope with definition := name, chain := name :: scope.chain } target
      objectOf? scope parent
    else pure none
  | n => do
    let parent ← projectNode r v scope n
    objectOf? scope parent
termination_by (r.unvisited scope.projecting, r.unvisited scope.chain, sizeOf n, 1)
decreasing_by
  · exact .right _ (.left _ _ (r.unvisited_cons_lt (r.mem_names_of_find? _found) _visited))
  · exact .right _ (.right _ (.right _ (by decide)))

-- Whether a referenced definition exists in the variant. One that is being decided counts as
-- present, so cycles end; "absent" is remembered only if nothing was assumed.
def isPresent (r : Registry) (v : Variant) (scope : Scope) (name : String) : Probe Bool := do
  let t ← Inquiry.read
  match t.memory.recallPresence (name, v) with
  | some known => pure known
  | none =>
    if _busy : name ∈ scope.projecting then do
      Inquiry.learn fun t => { t with leaned := true }
      pure true
    else do
      let ⟨target, _found⟩ ← Probe.ask (r.resolveFrom scope.definition name)
      let (kept, leaned) ← (projectNode r v (.start name (name :: scope.projecting)) target).watch
      if kept.isSome || !leaned then
        Inquiry.learn fun t =>
          { t with memory.presence := ((name, v), kept.isSome) :: t.memory.presence }
      pure kept.isSome
termination_by (r.unvisited scope.projecting, r.unvisited scope.chain, 0, 0)
decreasing_by
  exact .left _ _ (r.unvisited_cons_lt (r.mem_names_of_find? _found) _busy)
end

namespace Registry

def project (r : Registry) (definition : String) (n : Node) (v : Variant) :
    Question (Option Node) := fun m =>
  match projectNode r v (.start definition []) n ⟨m, false⟩ with
  | (answer, t) => (answer, t.memory)

def projectDefinition (r : Registry) (name : String) (v : Variant) : Question (Option Node) := do
  let ⟨n, _⟩ ← r.resolve name
  r.project name n v

end Registry
end TwinShape
