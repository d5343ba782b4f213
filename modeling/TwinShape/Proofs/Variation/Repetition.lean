import TwinShape.Proofs.Repetition
import TwinShape.Proofs.Variation.Survey

namespace TwinShape

theorem Contrast.andThen_matching {S : Memory → Memory → Prop} {f f' g g' : Memory → Contrast × Memory}
    (first : Matching S f f') (next : Matching S g g') :
    Matching S (fun m => Contrast.andThen (f m) g) fun m => Contrast.andThen (f' m) g' := by
  intro m n seen
  have ⟨same, after⟩ := first m n seen
  dsimp only
  revert same after
  rcases f m with ⟨_ | leaned, m'⟩ <;> rcases f' n with ⟨_ | leaned', n'⟩ <;> intro same after
  · exact ⟨rfl, after⟩
  · cases same
  · cases same
  · cases same
    have ⟨same, last⟩ := next m' n' after
    unfold Contrast.andThen
    dsimp only
    revert same last
    rcases g m' with ⟨_ | a, m''⟩ <;> rcases g' n' with ⟨_ | b, n''⟩ <;> intro same last <;> cases same <;> exact ⟨rfl, last⟩

-- Two comparisons, possibly on different registries, that come to the same. `source` relates the
-- nodes that are compared and `memory` what is known; all else is what keeps the relations up.
structure Comparison (r r' : Registry) where
  source : Node → Node → Prop
  memory : Memory → Memory → Prop
  restricted : source m n → m.restriction.isRestricted = n.restriction.isRestricted
  reference : source m n → (m.shape = .reference name ↔ n.shape = .reference name)
  pieces : source m n → List.Forall₂ (fun p q => p.1.isRestricted = q.1.isRestricted ∧ source p.2 q.2) m.pieces n.pieces
  known : memory k l → k.recallVariation name = l.recallVariation name
  remember : memory k l → memory (k.rememberContrast name contrast) (l.rememberContrast name contrast)
  resolve (name : String) : Alongside True memory (fun a b => source a.val b.val) (r.resolve name) (r'.resolve name)
  apart (name : String) : Matching memory (projectionsDiffer r name) (projectionsDiffer r' name)

namespace Comparison
variable {r r' : Registry} (c : Comparison r r')

theorem pieces_run {checking : List String} {pieces pieces' : List Piece}
    (both : List.Forall₂ (fun p q => p.1.isRestricted = q.1.isRestricted ∧ c.source p.2 q.2) pieces pieces')
    (each : ∀ p ∈ pieces, ∀ n, c.source p.2 n → Matching c.memory (nodeContrast r checking p.2) (nodeContrast r' checking n)) :
    Matching c.memory (contrastAll r checking pieces) (contrastAll r' checking pieces') := by
  induction both with
  | nil => exact fun _ _ seen => ⟨rfl, seen⟩
  | @cons piece piece' rest rest' head _ ih =>
    obtain ⟨restriction, m⟩ := piece
    obtain ⟨restriction', n⟩ := piece'
    obtain ⟨same, related⟩ := head
    change Matching c.memory (fun k => if restriction.isRestricted then _ else _) fun k => if restriction'.isRestricted then _ else _
    by_cases restricted : restriction.isRestricted
    · simp only [if_pos restricted, if_pos (same ▸ restricted)]
      exact fun _ _ seen => ⟨rfl, seen⟩
    · simp only [if_neg restricted, if_neg fun other => restricted (same ▸ other)]
      exact Contrast.andThen_matching (each _ List.mem_cons_self n related) (ih fun p inside => each p (List.mem_cons_of_mem _ inside))

theorem settle_run (name : String) (leaned : Bool) :
    Matching c.memory (settleContrast r name leaned) (settleContrast r' name leaned) := by
  let contrast (apart : Bool) : Contrast := if apart then .differs else .alike leaned
  have remembers : ∀ apart, Matching c.memory (fun k : Memory => (contrast apart, k.rememberContrast name (contrast apart)))
      fun k : Memory => (contrast apart, k.rememberContrast name (contrast apart)) := fun _ _ _ seen => ⟨rfl, c.remember seen⟩
  exact (c.apart name).andThen remembers

theorem definition_step {checking : List String} {name : String}
    (target : name ∉ checking → ∀ m n, r.find? name = some m → c.source m n →
      Matching c.memory (nodeContrast r (name :: checking) m) (nodeContrast r' (name :: checking) n)) :
    Matching c.memory (definitionContrast r checking name) (definitionContrast r' checking name) := by
  intro k l seen
  rw [definitionContrast_eq, definitionContrast_eq, c.known seen]
  cases l.recallVariation name with
  | some known => cases known <;> exact ⟨rfl, seen⟩
  | none =>
    dsimp only
    by_cases busy : name ∈ checking
    · rw [if_pos busy, if_pos busy]
      exact ⟨rfl, seen⟩
    · rw [if_neg busy, if_neg busy]
      have resolved := c.resolve name k l seen
      revert resolved
      rcases r.resolve name k with ⟨e | found, k₁⟩ <;> rcases r'.resolve name l with ⟨f | found', l₁⟩ <;> intro resolved
      · exact ⟨rfl, (resolved trivial).2⟩
      · exact (resolved trivial).elim
      · exact (resolved trivial).elim
      · have ⟨same, after⟩ := target busy _ _ found.property resolved.1 k₁ l₁ resolved.2
        dsimp only
        revert same after
        rcases nodeContrast r (name :: checking) found.val k₁ with ⟨_ | leaned, k₂⟩ <;>
          rcases nodeContrast r' (name :: checking) found'.val l₁ with ⟨_ | leaned', l₂⟩ <;> intro same after
        · have kept : c.memory (k₂.rememberContrast name .differs) (l₂.rememberContrast name .differs) := c.remember after
          exact ⟨rfl, kept⟩
        · cases same
        · cases same
        · cases same
          exact c.settle_run name leaned k₂ l₂ after

-- The recursion is that of the first comparison: into the tree, and along references.
theorem node_run (checking : List String) {m n : Node} (related : c.source m n) :
    Matching c.memory (nodeContrast r checking m) (nodeContrast r' checking n) := by
  have same := c.restricted related
  cases restricted : m.restriction.isRestricted with
  | true =>
    intro k l seen
    rw [nodeContrast_restricted _ _ restricted, nodeContrast_restricted _ _ (same ▸ restricted)]
    exact ⟨rfl, seen⟩
  | false =>
    rw [show nodeContrast r checking m = shapeContrast r checking m.shape from funext fun k => nodeContrast_free _ _ restricted k,
      show nodeContrast r' checking n = shapeContrast r' checking n.shape from funext fun k => nodeContrast_free _ _ (same ▸ restricted) k]
    by_cases reference : ∃ name, m.shape = .reference name
    · obtain ⟨name, shape⟩ := reference
      rw [shape, (c.reference related).1 shape]
      intro k l seen
      rw [shapeContrast, shapeContrast]
      exact c.definition_step (fun fresh m n found related => node_run (name :: checking) related) k l seen
    · have inner : ∀ name, m.shape ≠ .reference name := fun name shape => reference ⟨name, shape⟩
      have inner' : ∀ name, n.shape ≠ .reference name := fun name shape => inner name ((c.reference related).2 shape)
      rw [show shapeContrast r checking m.shape = contrastAll r checking m.shape.pieces from
          funext fun k => shapeContrast_pieces _ _ inner k,
        show shapeContrast r' checking n.shape = contrastAll r' checking n.shape.pieces from
          funext fun k => shapeContrast_pieces _ _ inner' k]
      exact c.pieces_run (c.pieces related) fun p inside n related => node_run checking related
termination_by (r.unvisited checking, sizeOf m)
decreasing_by
  · exact .left _ _ (r.unvisited_cons_lt (r.mem_names_of_find? found) fresh)
  · exact .right _ (Node.sizeOf_child (Node.mem_children_of_piece inside))

theorem definition_run (checking : List String) (name : String) :
    Matching c.memory (definitionContrast r checking name) (definitionContrast r' checking name) :=
  c.definition_step fun _ _ _ _ related => c.node_run (name :: checking) related

end Comparison

section
variable {r : Registry} {S : Memory → Memory → Prop}
  (resolve : ∀ name, Consistent S (r.resolve name))
  (project : ∀ name v, Consistent S (r.projectDefinition name v))
  (known : ∀ {m n}, S m n → ∀ name, m.recallVariation name = n.recallVariation name)
  (remember : ∀ {m n}, S m n → ∀ name contrast, S (m.rememberContrast name contrast) (n.rememberContrast name contrast))

include project in
theorem projectionsDiffer_consistent (name : String) : Consistent S (projectionsDiffer r name) := by
  intro m n seen
  have ⟨internal, between⟩ := project name .internal m n seen
  have ⟨external, after⟩ := project name .external _ _ between
  rw [projectionsDiffer_eq, projectionsDiffer_eq]
  dsimp only
  rw [internal, external]
  exact ⟨rfl, after⟩

def Comparison.self : Comparison r r where
  source := Eq
  memory := S
  restricted := fun same => same ▸ rfl
  reference := fun same => same ▸ Iff.rfl
  pieces := fun same => same ▸ List.forall₂_same.2 fun _ _ => ⟨rfl, rfl⟩
  known := fun seen => known seen _
  remember := fun seen => remember seen _ _
  resolve := fun name m n seen => .of_answer (resolve name m n seen).1 (resolve name m n seen).2 fun _ => rfl
  apart := projectionsDiffer_consistent project

include resolve project known remember

theorem definitionContrast_consistent (checking : List String) (name : String) :
    Consistent S (definitionContrast r checking name) :=
  (Comparison.self resolve project known remember).definition_run checking name

theorem nodeContrast_consistent (checking : List String) (n : Node) : Consistent S (nodeContrast r checking n) :=
  (Comparison.self resolve project known remember).node_run checking rfl

end
end TwinShape
