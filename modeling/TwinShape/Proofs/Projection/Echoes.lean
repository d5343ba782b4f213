import TwinShape.Proofs.Projection.Determinacy

namespace TwinShape

-- The second inquiry finds what the first one finds. Where the first fails, nothing is said.
def Inquiry.Echoes (S : σ → τ → Prop) (x : Inquiry σ ε α) (y : Inquiry τ ε α) : Prop :=
  ∀ s t a s', S s t → x s = (.ok a, s') → ∃ t', y t = (.ok a, t') ∧ S s' t'

namespace Inquiry.Echoes
variable {S : σ → τ → Prop}

theorem pure (a : α) : Echoes S (Pure.pure a : Inquiry σ ε α) (Pure.pure a : Inquiry τ ε α) := by
  intro s t b s' seen done
  cases done
  exact ⟨t, rfl, seen⟩

theorem fail (e : ε) (y : Inquiry τ ε α) : Echoes S (Inquiry.fail e) y := by
  intro s t a s' seen done
  cases done

theorem bind {x : Inquiry σ ε α} {y : Inquiry τ ε α} {f : α → Inquiry σ ε β} {g : α → Inquiry τ ε β}
    (first : Echoes S x y)
    (next : ∀ a, Echoes S (f a) (g a)) : Echoes S (x >>= f) (y >>= g) := by
  intro s t b s' seen done
  obtain ⟨a, u, ran, done⟩ := Inquiry.of_bind_ok done
  obtain ⟨t₁, ran', seen⟩ := first s t a u seen ran
  obtain ⟨t₂, done', seen⟩ := next a u t₁ b s' seen done
  exact ⟨t₂, (Inquiry.bind_ok ran').trans done', seen⟩

end Inquiry.Echoes

-- The same place in a projection, while other definitions are being decided.
def Scope.under (s : Scope) (busy : List String) : Scope := { s with projecting := busy }

open Inquiry (Echoes)

section
variable {r : Registry} {v : Variant} {S : Trail → Trail → Prop} {scope : Scope} {busy : List String}

theorem objectOf_echoes (n : Option Node) : Echoes S (objectOf? scope n) (objectOf? (scope.under busy) n) := by
  rcases n with _ | ⟨shape, annotations, optionality, restriction, misuse⟩
  · exact .pure _
  · cases shape with
    | object o => exact .pure _
    | _ => exact .fail _ _

theorem members_echo {ms : List Node} (each : ∀ m ∈ ms, Echoes S (projectNode r v scope m) (projectNode r v (scope.under busy) m)) :
    Echoes S (projectMembers r v scope ms) (projectMembers r v (scope.under busy) ms) := by
  induction ms with
  | nil =>
    rw [projectMembers, projectMembers]
    exact .pure _
  | cons m rest ih =>
    rw [projectMembers, projectMembers]
    refine .bind (each m List.mem_cons_self) fun kept => ?_
    exact .bind (ih fun n member => each n (List.mem_cons_of_mem _ member)) fun others => .pure _

theorem properties_echo {ps : List (Property Node)}
    (each : ∀ m ∈ ps.map (·.value), Echoes S (projectNode r v scope m) (projectNode r v (scope.under busy) m)) :
    Echoes S (projectProperties r v scope ps) (projectProperties r v (scope.under busy) ps) := by
  induction ps with
  | nil =>
    rw [projectProperties, projectProperties]
    exact .pure _
  | cons p rest ih =>
    have others := ih fun m member => each m (List.mem_cons_of_mem _ member)
    obtain ⟨name, value, restriction⟩ := p
    rw [projectProperties, projectProperties]
    by_cases inside : restriction.includes v = true
    · rw [if_pos inside, if_pos inside]
      refine .bind (each value List.mem_cons_self) fun kept => ?_
      exact .bind others fun rest => .pure _
    · rw [if_neg inside, if_neg inside]
      exact others

theorem additional_echoes {own : Additional Node} (inherited : Additional Node)
    (each : ∀ m ∈ own.nodes, Echoes S (projectNode r v scope m) (projectNode r v (scope.under busy) m)) :
    Echoes S (projectAdditional r v scope inherited own) (projectAdditional r v (scope.under busy) inherited own) := by
  cases own with
  | forbidden | allowed =>
    rw [projectAdditional, projectAdditional]
    exact .pure _
  | shape n =>
    rw [projectAdditional, projectAdditional]
    refine .bind (each n List.mem_cons_self) fun kept => ?_
    cases kept <;> exact .pure _

theorem parents_echo {ms : List Node}
    (each : ∀ m ∈ ms, Echoes S (projectParent r v scope m) (projectParent r v (scope.under busy) m))
    (origin : Nat) (merged : Merge) (further : Additional Node) :
    Echoes S (projectParents r v scope origin merged further ms)
      (projectParents r v (scope.under busy) origin merged further ms) := by
  induction ms generalizing origin merged further with
  | nil =>
    rw [projectParents, projectParents]
    exact .pure _
  | cons m rest ih =>
    have others := ih fun n member => each n (List.mem_cons_of_mem _ member)
    rw [projectParents, projectParents]
    refine .bind (each m List.mem_cons_self) fun parent => ?_
    cases parent with
    | none => exact others _ _ _
    | some o =>
      dsimp only
      cases merged.inherit origin o.properties with
      | error property => exact .fail _ _
      | ok after => exact others _ _ _

theorem parent_echoes {n : Node} (nodes : Echoes S (projectNode r v scope n) (projectNode r v (scope.under busy) n))
    (resolve : ∀ definition name, Echoes S (Probe.ask (r.resolveFrom definition name)) (Probe.ask (r.resolveFrom definition name)))
    (targets : ∀ name (target : r.Found name), n.shape = .reference name → name ∉ scope.chain →
      let inner : Scope := { scope with definition := name, chain := name :: scope.chain }
      Echoes S (projectNode r v inner target.val) (projectNode r v (inner.under busy) target.val)) :
    Echoes S (projectParent r v scope n) (projectParent r v (scope.under busy) n) := by
  cases named : n.referenceName? with
  | none =>
    rw [projectParent_inline named, projectParent_inline named]
    exact .bind nodes objectOf_echoes
  | some name =>
    have shape := Node.shape_of_referenceName named
    rw [projectParent_named shape, projectParent_named shape]
    by_cases visited : name ∈ scope.chain
    · rw [if_pos visited]
      exact .fail _ _
    · rw [if_neg visited, if_neg (show name ∉ (scope.under busy).chain from visited)]
      by_cases inside : n.restriction.includes v = true
      · rw [if_pos inside, if_pos inside]
        refine .bind (resolve _ _) fun target => ?_
        exact .bind (targets name target shape visited) objectOf_echoes
      · rw [if_neg inside, if_neg inside]
        exact .pure _

theorem shape_echoes {shape : Shape Node}
    (decided : ∀ name, shape = .reference name → Echoes S (isPresent r v scope name) (isPresent r v (scope.under busy) name))
    (each : ∀ m ∈ shape.children, Echoes S (projectNode r v scope m) (projectNode r v (scope.under busy) m))
    (parents : ∀ o, shape = .object o → ∀ m ∈ o.parents,
      Echoes S (projectParent r v scope m) (projectParent r v (scope.under busy) m)) :
    Echoes S (projectShape r v scope shape) (projectShape r v (scope.under busy) shape) := by
  cases shape with
  | object o =>
    obtain ⟨properties, additional, extended⟩ := o
    have own := fun m member => each m (List.mem_append_left _ member)
    rw [projectShape, projectShape]
    refine .bind (parents_echo (parents _ rfl) _ _ _) ?_
    rintro ⟨merged, inherited⟩
    refine .bind (properties_echo fun m member => own m (List.mem_append_left _ member)) fun kept => ?_
    exact .bind (additional_echoes _ fun m member => own m (List.mem_append_right _ member)) fun rest => .pure _
  | array item =>
    rw [projectShape, projectShape]
    refine .bind (each item List.mem_cons_self) fun kept => ?_
    cases kept <;> exact .pure _
  | union members =>
    rw [projectShape, projectShape]
    refine .bind (members_echo each) fun kept => ?_
    cases kept <;> exact .pure _
  | reference name =>
    rw [projectShape, projectShape]
    refine .bind (decided name rfl) fun present => ?_
    cases present <;> exact .pure _
  | linked declaration schema =>
    rw [projectShape, projectShape]
    refine .bind (each declaration List.mem_cons_self) fun first => ?_
    refine .bind (each schema (List.mem_cons_of_mem _ List.mem_cons_self)) fun second => ?_
    cases first <;> cases second <;> exact .pure _
  | _ =>
    rw [projectShape_leaf rfl, projectShape_leaf rfl]
    exact .pure _

-- What is being decided around a node shows in the presence checks only. What is near is every
-- node that is come to without one.
theorem node_echoes {level : List String} {near : Node → Prop}
    (inward : ∀ {n m}, near n → n.restriction.includes v → m ∈ n.children → near m)
    (merging : ∀ {n o} {m : Node} {name target}, near n → n.restriction.includes v → n.shape = .object o → m ∈ o.parents →
      m.shape = .reference name → r.find? name = some target → near target)
    (resolve : ∀ definition name, Echoes S (Probe.ask (r.resolveFrom definition name)) (Probe.ask (r.resolveFrom definition name)))
    (decided : ∀ n scope name, near n → n.restriction.includes v → n.shape = .reference name → scope.projecting = level →
      Echoes S (isPresent r v scope name) (isPresent r v (scope.under busy) name))
    (n : Node) (here : near n) (scope : Scope) (at_ : scope.projecting = level) :
    Echoes S (projectNode r v scope n) (projectNode r v (scope.under busy) n) := by
  rw [projectNode_eq, projectNode_eq]
  by_cases inside : n.restriction.includes v = true
  · rw [if_pos inside, if_pos inside]
    have each : ∀ m ∈ n.children, Echoes S (projectNode r v scope m) (projectNode r v (scope.under busy) m) :=
      fun m child => node_echoes inward merging resolve decided m (inward here inside child) scope at_
    refine .bind (shape_echoes (fun name shape => decided n scope name here inside shape at_) each
      fun o shape m member => ?_) fun shape => ?_
    · refine parent_echoes (each m ?_) resolve fun name target named fresh => ?_
      · exact Node.child_of_shape shape (List.mem_append_right _ member)
      · exact node_echoes inward merging resolve decided target.val
          (merging here inside shape member named target.property) _ at_
    · cases shape <;> exact .pure _
  · rw [if_neg inside, if_neg inside]
    exact .pure _
termination_by (r.unvisited scope.chain, sizeOf n)
decreasing_by
  · exact .right _ (Node.sizeOf_child child)
  · exact .left _ _ (r.unvisited_cons_lt (r.mem_names_of_find? target.property) fresh)

end
end TwinShape
