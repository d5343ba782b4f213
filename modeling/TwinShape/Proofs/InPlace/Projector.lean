import TwinShape.Proofs.InPlace.Projection
import TwinShape.Proofs.Registry.Records

namespace TwinShape
namespace InPlace

-- The books, and the one projector that all calls of a projection share and move about.
structure Stand where
  cells : Cells
  projector : Projector

abbrev Standing (α : Type) := Attempt Stand Fault α

namespace Stand

def held (x : Projector → Probing α) : Standing α := fun s =>
  (x s.projector s.cells).map fun (answer, c) => (answer, { s with cells := c })

def alone (p : Projector) (x : Standing α) : Probing α := fun c =>
  (x ⟨c, p⟩).map fun (answer, s) => (answer, s.cells)

-- The definition is kept aside, and put back. A name is put on the chain, and the innermost one is taken off.
def entering (name : String) (x : Standing α) : Standing α := fun s =>
  (x { s with projector := ⟨name, name :: s.projector.chain⟩ }).map fun (answer, after) =>
    (answer, { after with projector := ⟨s.projector.definition, after.projector.chain.tail⟩ })

section
variable (r : Registry) (v : Variant)
  -- How a definition is projected that has to be entered.
  (enter : Node → Standing (Option Node))

def targetExists (name : String) : Standing Bool :=
  held fun p => InPlace.targetExists r v (fun start n => alone start (enter n)) p name

def namedParent (name : String) (restriction : Restriction) : Standing (Option (ObjectShape Node)) := do
  let s ← Attempt.read
  if name ∈ s.projector.chain then
    Attempt.fail (.cyclicExtends (s.projector.chain.getLastD s.projector.definition) (name :: s.projector.chain).reverse)
  else if restriction.includes v then do
    let target ← held fun p => ask (r.resolveFrom p.definition name)
    let parent ← entering name (enter target.val)
    held fun p => objectOf p parent
  else pure none

mutual
def node : Node → Standing (Option Node)
  | ⟨shape, annotations, optionality, restriction, _⟩ =>
    if restriction.includes v then do
      match ← shapeOf shape with
      | some shape => pure (some ⟨shape, annotations, optionality, .unrestricted, []⟩)
      | none => pure none
    else pure none

def shapeOf : Shape Node → Standing (Option (Shape Node))
  | .object ⟨properties, additional, parents⟩ => do
    let (merged, inherited) ← parentsOf 0 [] .forbidden parents
    let own ← propertiesOf properties
    let additional ← additionalOf inherited additional
    pure (some (.object ⟨(merged.override own).properties, additional, []⟩))
  | .array item => do
    match ← node item with
    | some item => pure (some (.array item))
    | none => pure none
  | .union members => do
    match ← membersOf members with
    | [] => pure none
    | members => pure (some (.union members))
  | .reference name => do
    if ← targetExists r v enter name then pure (some (.reference name)) else pure none
  | .linked declaration schema => do
    let declaration ← node declaration
    let schema ← node schema
    match declaration, schema with
    | some declaration, some schema => pure (some (.linked declaration schema))
    | _, _ => pure none
  | shape => pure (some shape)

def membersOf : List Node → Standing (List Node)
  | [] => pure []
  | n :: rest => do
    let kept ← node n
    let rest ← membersOf rest
    pure (kept.toList ++ rest)

def propertiesOf : List (Property Node) → Standing (List (Property Node))
  | [] => pure []
  | ⟨name, value, restriction⟩ :: rest =>
    if restriction.includes v then do
      let kept ← node value
      let rest ← propertiesOf rest
      pure ((kept.map fun value => ⟨name, value, .unrestricted⟩).toList ++ rest)
    else propertiesOf rest

def additionalOf (inherited : Additional Node) : Additional Node → Standing (Additional Node)
  | .forbidden => pure inherited
  | .allowed => pure .allowed
  | .shape n => do
    match ← node n with
    | some n => pure (.shape n)
    | none => pure .forbidden

def parentsOf (origin : Nat) (merged : Merge) (additional : Additional Node) :
    List Node → Standing (Merge × Additional Node)
  | [] => pure (merged, additional)
  | n :: rest =>
    (match n.referenceName? with
      | some name => namedParent r v enter name n.restriction
      | none => node n >>= fun outcome => held fun p => objectOf p outcome) >>= fun
    | none => parentsOf (origin + 1) merged additional rest
    | some o =>
      match merged.inherit origin o.properties with
      | .error property => held fun p => Attempt.fail (.extendsCollision p.definition property)
      | .ok merged => parentsOf (origin + 1) merged (additional.inherit o.additional) rest
end
end

def descend (r : Registry) (v : Variant) : Nat → Node → Standing (Option Node)
  | 0 => fun _ => Descent.giveUp
  | depth + 1 => node r v (descend r v depth)

end Stand

-- What a call leaves behind: nothing more is in progress than before, and what is known has grown.
structure Cells.Restored (c c' : Cells) : Prop where
  projecting : c'.projecting = c.projecting
  checking : c'.checking = c.checking
  memory : c.memory.Onward c.projecting c.checking c'.memory

namespace Cells.Restored
variable {c c' c'' : Cells}

theorem refl : c.Restored c := ⟨rfl, rfl, .refl⟩

theorem trans (first : c.Restored c') (second : c'.Restored c'') : c.Restored c'' := by
  refine ⟨second.projecting.trans first.projecting, second.checking.trans first.checking, first.memory.trans ?_⟩
  rw [← first.projecting, ← first.checking]
  exact second.memory

theorem resolve (r : Registry) (referencing name : String) :
    c.Restored { c with memory := (r.resolveFrom referencing name c.memory).2 } := ⟨rfl, rfl, .resolve referencing name⟩

end Cells.Restored

-- A call after which the projector is where it was, and the books are restored, whether an answer
-- or a fault is returned.
def Standing.Returns (x : Standing α) : Prop :=
  ∀ s answer after, x s = some (answer, after) → after.projector = s.projector ∧ s.cells.Restored after.cells

def Tidies (x : Descent Cells β) : Prop := ∀ c answer after, x c = some (answer, after) → c.Restored after

-- A run on a shared projector that comes to the same as one that passes the projector on. It leaves
-- the projector where it was and the books restored, whether it gives an answer or a fault.
structure Orderly (p : Projector) (x : Standing α) (y : Probing α) : Prop where
  same : ∀ c, x ⟨c, p⟩ = (y c).map fun (answer, after) => (answer, ⟨after, p⟩)
  tidies : Tidies y

namespace Tidies

theorem told (b : β) : Tidies (Descent.told b) := by
  intro c answer after done
  cases done
  exact .refl

theorem giveUp : Tidies (Descent.giveUp : Descent Cells β) := nofun

theorem andThen {x : Descent Cells β} {f : β → Descent Cells γ} (first : Tidies x) (next : ∀ b, Tidies (f b)) :
    Tidies (x.andThen f) := by
  intro c answer after done
  unfold Descent.andThen at done
  rcases reached : x c with _ | ⟨b, c'⟩ <;> rw [reached] at done
  · cases done
  · exact (first c b c' reached).trans (next b c' answer after done)

theorem bind {x : Probing α} {f : α → Probing β} (first : Tidies x) (next : ∀ a, Tidies (f a)) :
    Tidies (x >>= f : Probing β) := by
  refine .andThen first fun answer => ?_
  cases answer with
  | error e => exact .told _
  | ok a => exact next a

theorem ask (r : Registry) (referencing name : String) : Tidies (InPlace.ask (r.resolveFrom referencing name)) := by
  intro c answer after done
  cases done
  exact .resolve r referencing name

theorem settle {v : Variant} {name : String} {projected : Probing (Option Node)} (tidies : Tidies projected) {c : Cells}
    (unknown : c.memory.recallPresence (name, v) = none) (free : (name, v) ∉ c.projecting)
    (done : InPlace.settle v name projected c = some (answer, after)) : c.Restored after := by
  unfold InPlace.settle at done
  rcases reached : projected { c with projecting := (name, v) :: c.projecting } with _ | ⟨outcome, c'⟩ <;> rw [reached] at done
  · cases done
  · obtain ⟨projecting, checking, built, presence, variation⟩ := tidies _ _ _ reached
    have out : c'.projecting.erase (name, v) = c.projecting := by
      rw [projecting]
      exact List.erase_cons_head _ _
    rcases outcome with e | kept <;> cases done
    · exact ⟨out, checking, built, presence.fewer, variation⟩
    · refine ⟨out, checking, ?_⟩
      dsimp only
      split
      · exact ⟨built, presence.record unknown free _, variation⟩
      · exact ⟨built, presence.fewer, variation⟩

theorem targetExists (r : Registry) (v : Variant) {enter : Projector → Node → Probing (Option Node)}
    (entered : ∀ p n, Tidies (enter p n)) (p : Projector) (name : String) : Tidies (InPlace.targetExists r v enter p name) := by
  intro c answer after done
  unfold InPlace.targetExists at done
  cases known : c.memory.recallPresence (name, v) with
  | some present =>
    rw [known] at done
    cases done
    exact .refl
  | none =>
    rw [known] at done
    dsimp only at done
    split at done
    · cases done
      exact ⟨rfl, rfl, .refl⟩
    · rename_i free
      change Attempt.bind (InPlace.ask (r.resolveFrom p.definition name)) _ c = _ at done
      unfold Attempt.bind InPlace.ask Attempt.ask Descent.andThen at done
      have same := Registry.recall_of_same (Registry.resolveFrom_same (r := r) p.definition name c.memory) (name, v)
      have came : c.Restored _ := .resolve r p.definition name
      dsimp only at done
      revert done same came
      rcases r.resolveFrom p.definition name c.memory with ⟨e | target, m⟩ <;> intro done same came
      · cases done
        exact came
      · exact came.trans (settle (entered _ _) (same.trans known) free done)

end Tidies

namespace Orderly
variable {p : Projector}

theorem pure (a : α) : Orderly p (Pure.pure a : Standing α) (Pure.pure a : Probing α) := ⟨fun _ => rfl, .told _⟩

theorem fail (e : Fault) : Orderly p (Attempt.fail e : Standing α) (Attempt.fail e : Probing α) :=
  ⟨fun _ => rfl, .told _⟩

theorem held {x : Projector → Probing α} (tidies : Tidies (x p)) :
    Orderly p (Stand.held x) (x p) := ⟨fun _ => rfl, tidies⟩

theorem bind {x : Standing α} {y : Probing α} {f : α → Standing β} {g : α → Probing β} (first : Orderly p x y)
    (next : ∀ a, Orderly p (f a) (g a)) : Orderly p (x >>= f : Standing β) (y >>= g : Probing β) := by
  refine ⟨fun c => ?_, .bind first.tidies fun a => (next a).tidies⟩
  change Attempt.bind x f ⟨c, p⟩ = (Attempt.bind y g c).map _
  unfold Attempt.bind Descent.andThen
  rw [first.same]
  rcases y c with _ | ⟨e | a, c'⟩
  · rfl
  · rfl
  · exact (next a).same c'

theorem inspect {f : Stand → Standing α} {y : Probing α} (next : ∀ c, Orderly p (f ⟨c, p⟩) y) :
    Orderly p (Attempt.read >>= f : Standing α) y := ⟨fun c => (next c).same c, (next ⟨.blank, [], [], 0⟩).tidies⟩

-- A projector of its own does not matter to what is done with another one.
theorem alone {x : Standing α} {y : Probing α} (orderly : Orderly p x y) : Stand.alone p x = y := by
  funext c
  unfold Stand.alone
  rw [orderly.same, Option.map_map]
  exact congrFun Option.map_id (y c)

theorem entering {name : String} {x : Standing α} {y : Probing α} (orderly : Orderly ⟨name, name :: p.chain⟩ x y) :
    Orderly p (Stand.entering name x) y := by
  refine ⟨fun c => ?_, orderly.tidies⟩
  unfold Stand.entering
  dsimp only
  rw [orderly.same, Option.map_map]
  rfl

theorem returns {x : Standing α} {y : Projector → Probing α} (orderly : ∀ p, Orderly p x (y p)) : x.Returns := by
  rintro ⟨c, p⟩ answer after done
  rw [(orderly p).same] at done
  obtain ⟨⟨_, c'⟩, reached, same⟩ := Option.map_eq_some_iff.1 done
  cases same
  exact ⟨rfl, (orderly p).tidies _ _ _ reached⟩

end Orderly

theorem object_tidies (p : Projector) (outcome : Option Node) : Tidies (objectOf p outcome) := by
  cases outcome with
  | none => exact .told _
  | some n =>
    obtain ⟨shape, annotations, optionality, restriction, misuse⟩ := n
    cases shape <;> exact .told _

section
variable {r : Registry} {v : Variant} {enter : Node → Standing (Option Node)} {enter' : Projector → Node → Probing (Option Node)}
  (entered : ∀ p n, Orderly p (enter n) (enter' p n)) {p : Projector}

theorem members_orderly {ns : List Node} (each : ∀ n ∈ ns, Orderly p (Stand.node r v enter n) (node r v enter' p n)) :
    Orderly p (Stand.membersOf r v enter ns) (membersOf r v enter' p ns) := by
  induction ns with
  | nil =>
    rw [Stand.membersOf, membersOf]
    exact .pure []
  | cons n rest ih =>
    rw [Stand.membersOf, membersOf]
    refine .bind (each n List.mem_cons_self) fun kept => ?_
    exact .bind (ih fun m member => each m (List.mem_cons_of_mem _ member)) fun others => .pure _

theorem properties_orderly {ps : List (Property Node)}
    (each : ∀ n ∈ ps.map (·.value), Orderly p (Stand.node r v enter n) (node r v enter' p n)) :
    Orderly p (Stand.propertiesOf r v enter ps) (propertiesOf r v enter' p ps) := by
  induction ps with
  | nil =>
    rw [Stand.propertiesOf, propertiesOf]
    exact .pure []
  | cons property rest ih =>
    have others := ih fun m member => each m (List.mem_cons_of_mem _ member)
    obtain ⟨name, value, restriction⟩ := property
    rw [Stand.propertiesOf, propertiesOf]
    split
    · refine .bind (each value List.mem_cons_self) fun kept => ?_
      exact .bind others fun more => .pure _
    · exact others

theorem additional_orderly {inherited own : Additional Node}
    (each : ∀ n ∈ own.nodes, Orderly p (Stand.node r v enter n) (node r v enter' p n)) :
    Orderly p (Stand.additionalOf r v enter inherited own) (additionalOf r v enter' p inherited own) := by
  cases own with
  | forbidden =>
    rw [Stand.additionalOf, additionalOf]
    exact .pure inherited
  | allowed =>
    rw [Stand.additionalOf, additionalOf]
    exact .pure _
  | shape n =>
    rw [Stand.additionalOf, additionalOf]
    refine .bind (each n List.mem_cons_self) fun kept => ?_
    cases kept <;> exact .pure _

include entered

theorem target_orderly (name : String) : Orderly p (Stand.targetExists r v enter name)
    (targetExists r v enter' p name) := by
  have own : (fun start n => Stand.alone start (enter n)) = enter' := funext fun start => funext fun n => (entered start n).alone
  unfold Stand.targetExists
  rw [own]
  exact .held (.targetExists r v (fun q n => (entered q n).tidies) p name)

theorem named_orderly (name : String) (restriction : Restriction) :
    Orderly p (Stand.namedParent r v enter name restriction) (namedParent r v enter' p name restriction) := by
  refine .inspect fun c => ?_
  unfold namedParent
  dsimp only
  split
  · exact .fail _
  · split
    · refine .bind (.held (.ask r p.definition name)) fun target => ?_
      exact .bind (entered _ target.val).entering fun parent => .held (object_tidies p parent)
    · exact .pure none

theorem parents_orderly {ns : List Node} (each : ∀ n ∈ ns, Orderly p (Stand.node r v enter n) (node r v enter' p n))
    (origin : Nat) (merged : Merge) (additional : Additional Node) :
    Orderly p (Stand.parentsOf r v enter origin merged additional ns) (parentsOf r v enter' p origin merged additional ns) := by
  induction ns generalizing origin merged additional with
  | nil =>
    rw [Stand.parentsOf, parentsOf]
    exact .pure _
  | cons n rest ih =>
    have later := ih fun m member => each m (List.mem_cons_of_mem _ member)
    rw [Stand.parentsOf, parentsOf]
    refine .bind ?_ fun parent => ?_
    · cases n.referenceName? with
      | some name => exact named_orderly entered name n.restriction
      | none => exact .bind (each n List.mem_cons_self) fun outcome => .held (object_tidies p outcome)
    · cases parent with
      | none => exact later _ _ _
      | some o =>
        dsimp only
        cases merged.inherit origin o.properties with
        | error property => exact .held (.told _)
        | ok merged => exact later _ _ _

theorem node_orderly (n : Node) : Orderly p (Stand.node r v enter n) (node r v enter' p n) := by
  induction n using Node.tree_induction with
  | node n each =>
    obtain ⟨shape, annotations, optionality, restriction, misuse⟩ := n
    change ∀ c ∈ shape.children, _ at each
    have shapes : Orderly p (Stand.shapeOf r v enter shape) (shapeOf r v enter' p shape) := by
      cases shape with
      | object o =>
        obtain ⟨properties, additional, parents⟩ := o
        have own := fun c member => each c (List.mem_append_left _ member)
        rw [Stand.shapeOf, shapeOf]
        refine .bind (parents_orderly entered (fun c member => each c (List.mem_append_right _ member)) 0 [] .forbidden) ?_
        rintro ⟨merged, inherited⟩
        refine .bind (properties_orderly fun c member => own c (List.mem_append_left _ member)) fun kept => ?_
        exact .bind (additional_orderly fun c member => own c (List.mem_append_right _ member)) fun rest => .pure _
      | array item =>
        rw [Stand.shapeOf, shapeOf]
        refine .bind (each item List.mem_cons_self) fun kept => ?_
        cases kept <;> exact .pure _
      | union members =>
        rw [Stand.shapeOf, shapeOf]
        refine .bind (members_orderly each) fun kept => ?_
        cases kept <;> exact .pure _
      | reference name =>
        rw [Stand.shapeOf, shapeOf]
        refine .bind (target_orderly entered name) fun found => ?_
        cases found <;> exact .pure _
      | linked declaration schema =>
        rw [Stand.shapeOf, shapeOf]
        refine .bind (each declaration List.mem_cons_self) fun first => ?_
        refine .bind (each schema (List.mem_cons_of_mem _ List.mem_cons_self)) fun second => ?_
        cases first <;> cases second <;> exact .pure _
      | _ =>
        rw [Stand.shapeOf, shapeOf] <;> first | exact .pure _ | simp
    rw [Stand.node, node]
    split
    · refine .bind shapes fun kept => ?_
      cases kept <;> exact .pure _
    · exact .pure none

end

theorem descend_orderly (r : Registry) (v : Variant) (depth : Nat) (p : Projector) (n : Node) :
    Orderly p (Stand.descend r v depth n) (descend r v depth p n) := by
  induction depth generalizing p n with
  | zero => exact ⟨fun _ => rfl, .giveUp⟩
  | succ depth ih => exact node_orderly ih n

end InPlace
end TwinShape
