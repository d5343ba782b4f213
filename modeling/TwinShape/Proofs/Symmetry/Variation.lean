import TwinShape.Proofs.Projection.Inheritance
import TwinShape.Proofs.Registry.Renewal
import TwinShape.Proofs.Symmetry.Projection

namespace TwinShape

namespace Registry
variable {r : Registry} {v w : Variant} {m : Memory}

theorem projectDefinition_apart (apart : v ≠ w) (sound : m.Sound r) (name : String) :
    Memory.Alike r w w (r.projectDefinition name v m).2 m :=
  ⟨definition_other apart name m, definition_sound v name sound, sound⟩

theorem projections_commute (apart : v ≠ w) (sound : m.Sound r) (name : String) :
    (r.projectDefinition name w (r.projectDefinition name v m).2).1 = (r.projectDefinition name w m).1 ∧
      Memory.Alike r w w (r.projectDefinition name w (r.projectDefinition name v m).2).2
        (r.projectDefinition name v (r.projectDefinition name w m).2).2 := by
  have ⟨same, after⟩ := projectDefinition_consistent name _ _ (projectDefinition_apart apart sound name)
  have later := projectDefinition_apart (v := v) (w := w) apart after.second name
  exact ⟨same, fun other => (after.presence other).trans (later.presence other).symm, after.first, later.first⟩

theorem projectDefinition_settled (settled : r.Settled) (answered : (r.projectDefinition name v m).1 = .ok (some out)) :
    out.Each Node.Settled := by
  obtain ⟨target, m₁, -, ran⟩ := Inquiry.of_bind_ok (Prod.ext answered rfl)
  exact settled.projected (settled name target.val target.property) (congrArg Prod.fst ran)

end Registry

theorem sameOption_comm {a b : Option Node} (settled : ∀ n ∈ a, n.Each Node.Settled)
    (settled' : ∀ n ∈ b, n.Each Node.Settled) :
    sameOption Node.same a b = sameOption Node.same b a := by
  rw [Bool.eq_iff_iff, sameOption_iff, sameOption_iff]
  exact ⟨fun same => rel_turn same fun m inside n inside' => Node.same_symm (settled m inside) (settled' n inside'),
    fun same => rel_turn same fun m inside n inside' => Node.same_symm (settled' m inside) (settled n inside')⟩

theorem Node.pieces_mirrored (n : Node) : n.mirrored.pieces = n.pieces.map fun p => (p.1.mirrored, p.2.mirrored) := by
  have free : ∀ nodes, freePieces (mirroredNodes nodes) = (freePieces nodes).map fun p => (p.1.mirrored, p.2.mirrored) := by
    intro nodes
    rw [mirroredNodes_eq, freePieces, freePieces, List.map_map, List.map_map]
    rfl
  have owned : ∀ properties, propertyPieces (mirroredProperties properties) =
      (propertyPieces properties).map fun p => (p.1.mirrored, p.2.mirrored) := by
    intro properties
    rw [mirroredProperties_eq, propertyPieces, propertyPieces, List.map_map, List.map_map]
    rfl
  have further : ∀ additional : Additional Node, (mirroredAdditional additional).nodes = mirroredNodes additional.nodes := by
    intro additional
    cases additional <;> rfl
  rw [pieces, shape_mirrored, pieces]
  cases n.shape with
  | object o =>
    obtain ⟨properties, additional, parents⟩ := o
    rw [mirroredShape, Shape.pieces, Shape.pieces, owned, further, free, free, List.map_append, List.map_append]
  | union members => exact free members
  | _ => rfl

namespace Registry
variable {r : Registry}

-- Both projections are compared in either registry, with the variants exchanged and in the other order.
theorem projectionsDiffer_mirrored (settled : r.Settled) (name : String) :
    Matching (Memory.Mirrors r) (projectionsDiffer r.mirrored name) (projectionsDiffer r name) := by
  intro m n seen
  have internal := projectDefinition_mirrored name .internal m n seen
  have external := projectDefinition_mirrored name .external _ _ (internal.after trivial)
  have ⟨outward, alike⟩ := projections_commute (v := .external) (w := .internal) nofun seen.second name
  have ⟨inward, alike'⟩ := projections_commute (v := .internal) (w := .external) nofun seen.second name
  have first : (r.mirrored.projectDefinition name .internal m).1 = (r.projectDefinition name .external n).1 := internal.answer trivial
  have second : (r.mirrored.projectDefinition name .external (r.mirrored.projectDefinition name .internal m).2).1 =
      (r.projectDefinition name .internal n).1 := (external.answer trivial).trans outward
  rw [projectionsDiffer_eq, projectionsDiffer_eq]
  dsimp only
  rw [first, second, inward]
  refine ⟨?_, ?_⟩
  · have shapes := fun v out (answered : (r.projectDefinition name v n).1 = .ok (some out)) => projectDefinition_settled settled answered
    have outside := shapes .external
    have inside := shapes .internal
    revert outside inside
    rcases (r.projectDefinition name .external n).1 with _ | e <;> rcases (r.projectDefinition name .internal n).1 with _ | i <;>
      intro outside inside <;> try rfl
    exact congrArg (!·) (sameOption_comm (fun out found => outside out (congrArg Except.ok found)) fun out found =>
      inside out (congrArg Except.ok found))
  · have last := external.after trivial
    have variation := (definition_variation (r := r) .external name (r.projectDefinition name .internal n).2).trans
      (definition_variation .internal name n)
    have variation' := (definition_variation (r := r) .internal name (r.projectDefinition name .external n).2).trans
      (definition_variation .external name n)
    refine ⟨fun other v => (last.presence other v).trans ?_, fun other => (last.variation other).trans ?_, last.first, alike.second⟩
    · cases v with
      | external => exact alike.presence other
      | internal => exact (alike'.presence other).symm
    · exact congrArg (·.lookup other) (variation'.trans variation.symm)

def mirroredComparison (settled : r.Settled) : Comparison r.mirrored r where
  source m n := m = n.mirrored
  memory := Memory.Mirrors r
  restricted := by
    rintro _ n rfl
    rw [n.restriction_mirrored, Restriction.isRestricted_mirrored]
  reference := by
    rintro _ n name rfl
    rw [n.shape_mirrored]
    cases n.shape <;> first | rfl | exact iff_of_false nofun nofun
  pieces := by
    rintro _ n rfl
    rw [n.pieces_mirrored, List.forall₂_map_left_iff]
    exact List.forall₂_same.2 fun p _ => ⟨p.1.isRestricted_mirrored, rfl⟩
  known seen := seen.variation _
  remember := by
    intro k l name contrast seen
    refine ⟨fun other v => ?_, Memory.recallVariation_remember seen.variation name contrast, ?_, ?_⟩
    · rcases contrast with _ | _ | _ <;> exact seen.presence other v
    · rcases contrast with _ | _ | _ <;> exact seen.first
    · rcases contrast with _ | _ | _ <;> exact seen.second
  resolve name := resolveFrom_mirrored name name
  apart := projectionsDiffer_mirrored settled

end Registry

structure Memory.Unanswered (r : Registry) (m : Memory) : Prop where
  sound : m.Sound r
  presence : m.presence = []
  variation : m.variation = []

theorem Memory.unanswered_blank (r : Registry) : Memory.blank.Unanswered r := ⟨Memory.sound_blank r, rfl, rfl⟩

theorem Memory.Unanswered.mirrors {r : Registry} {m n : Memory} (first : m.Unanswered r.mirrored)
    (second : n.Unanswered r) :
    m.Mirrors r n := by
  refine ⟨fun name v => ?_, fun name => ?_, first.sound, second.sound⟩
  · rw [recallPresence, recallPresence, first.presence, second.presence]
    rfl
  · rw [recallVariation, recallVariation, first.variation, second.variation]

-- Neither variant is treated in a way of its own.
theorem Registry.variants_symmetric {r : Registry} {m n : Memory} (first : m.Unanswered r.mirrored)
    (second : n.Unanswered r) (name : String) :
    (∀ v, (r.mirrored.projectDefinition name v m).1 = (r.projectDefinition name v.other n).1) ∧
      (r.Settled → (r.mirrored.differs name m).1 = (r.differs name n).1) := by
  have seen := first.mirrors second
  refine ⟨fun v => (projectDefinition_mirrored name v m n seen).answer trivial, fun settled => ?_⟩
  have same := ((mirroredComparison settled).definition_run [] name m n seen).1
  exact congrArg Contrast.isDifference same

theorem Registry.variants_symmetric_diamond :
    (diamond.mirrored.projectDefinition "Child" .external .blank).1 = (diamond.projectDefinition "Child" .internal .blank).1 ∧
      propertiesIn (diamond.mirrored.projectDefinition "Child" .external .blank).1 = ["id", "tag", "left", "right", "self", "note"] ∧
      (diamond.mirrored.differs "Child" .blank).1 = true := by
  have ⟨same, differ⟩ := variants_symmetric (Memory.unanswered_blank diamond.mirrored) (Memory.unanswered_blank diamond) "Child"
  have properties : propertiesIn (diamond.projectDefinition "Child" .internal .blank).1 = ["id", "tag", "left", "right", "self", "note"] := by
    cbv
  have apart : (diamond.differs "Child" .blank).1 = true := by cbv
  exact ⟨same .external, (same .external).symm ▸ properties, (differ diamond_settled).trans apart⟩

end TwinShape
