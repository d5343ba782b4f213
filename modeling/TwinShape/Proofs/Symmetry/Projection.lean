import TwinShape.Proofs.Projection.Memory
import TwinShape.Proofs.Symmetry.Mirror

namespace TwinShape

structure Memory.Mirrors (r : Registry) (m n : Memory) : Prop where
  presence : ∀ name v, m.recallPresence (name, v) = n.recallPresence (name, v.other)
  variation : ∀ name, m.recallVariation name = n.recallVariation name
  first : m.Sound r.mirrored
  second : n.Sound r

theorem Variant.other_inj {v w : Variant} (same : v.other = w.other) : v = w := by
  cases v <;> cases w <;> first | rfl | cases same

theorem Node.rebuilt_mirrored (n : Node) (shape : Shape Node) : n.mirrored.rebuilt shape = n.rebuilt shape := by
  obtain ⟨own, annotations, optionality, restriction, misuse⟩ := n
  rfl

theorem aligned_map {drop₁ drop₂ : α → Prop} {R : α → α → Prop} {f : α → α} (l : List α) (each : ∀ a, R (f a) a) :
    Aligned drop₁ drop₂ R (l.map f) l := by
  induction l with
  | nil => exact .nil
  | cons a rest ih => exact .both (each a) ih

theorem before_mirrored {v : Variant} (shape : Shape Node) :
    BeforeProjection v v.other True (fun _ => True) (fun m n => m = n.mirrored) (mirroredShape shape) shape := by
  cases shape with
  | object o =>
    obtain ⟨properties, additional, parents⟩ := o
    rw [mirroredShape, mirroredProperties_eq, mirroredNodes_eq]
    refine .object (aligned_map _ fun p => ⟨rfl, p.restriction.includes_mirrored v, rfl⟩) ?_ (aligned_map _ fun _ => rfl)
    cases additional with
    | forbidden => exact .forbidden
    | allowed => exact .allowed
    | shape n => exact .shape rfl
  | array item => exact .array rfl
  | union members =>
    rw [mirroredShape, mirroredNodes_eq]
    exact .union (aligned_map _ fun _ => rfl)
  | reference name => exact .reference trivial
  | linked declaration schema => exact .linked rfl rfl
  | _ => exact .leaf rfl rfl

namespace Registry
variable {r : Registry}

theorem resolveFrom_mirrored (referencing name : String) :
    Alongside True (Memory.Mirrors r) (fun a b => a.val = b.val.mirrored)
      (r.mirrored.resolveFrom referencing name) (r.resolveFrom referencing name) := by
  intro m n seen
  have both := resolution_mirrored r referencing name
  rw [← resolveFrom_answer seen.first referencing name, ← resolveFrom_answer seen.second referencing name] at both
  have same := resolveFrom_same (r := r.mirrored) referencing name m
  have same' := resolveFrom_same (r := r) referencing name n
  have after : Memory.Mirrors r (r.mirrored.resolveFrom referencing name m).2 (r.resolveFrom referencing name n).2 := by
    refine ⟨fun other v => ?_, fun other => ?_, resolveFrom_sound seen.first _ _, resolveFrom_sound seen.second _ _⟩
    · rw [recall_of_same same, recall_of_same same']
      exact seen.presence other v
    · unfold Memory.recallVariation
      rw [same.variation, same'.variation]
      exact seen.variation other
  revert both after
  rcases r.mirrored.resolveFrom referencing name m with ⟨e | a, m'⟩ <;>
    rcases r.resolveFrom referencing name n with ⟨f | b, n'⟩ <;> intro both after
  · exact fun exact_ => ⟨both exact_, after⟩
  · exact both
  · exact both
  · exact ⟨both, after⟩

end Registry

def plainly (r : Registry) (v : Variant) : Simulation r r v v :=
  (Unison.plain r v).simulation (fun _ _ => False) fun _ _ _ seen => seen.elim

-- A run on the mirrored registry, and one to the other variant on the registry itself. They have
-- the same result, since what comes out is restricted nowhere.
def mirroring (r : Registry) (v : Variant) : Simulation r.mirrored r v v.other where
  strict := True
  named _ := True
  source m n := m = n.mirrored
  result := (plainly r v.other).result
  view := Probe.Seen (Memory.Mirrors r)
  includes := by
    rintro _ n rfl
    rw [n.restriction_mirrored, Restriction.includes_mirrored]
  referenceName := by
    rintro _ n _ rfl
    rw [Node.referenceName?, n.shape_mirrored, Node.referenceName?]
    cases n.shape <;> rfl
  shapes := by
    rintro _ n rfl _
    rw [n.shape_mirrored]
    exact before_mirrored n.shape
  leaf := by
    rintro _ n rfl inside _ leaf
    rw [n.restriction_mirrored, Restriction.includes_mirrored] at inside
    rw [n.rebuilt_mirrored, n.shape_mirrored, mirroredShape_leaf leaf]
    exact (plainly r v.other).leaf ⟨rfl, trivial⟩ inside leaf leaf
  inner := by
    rintro _ n s t rfl inside inner after distinct
    rw [n.restriction_mirrored, Restriction.includes_mirrored] at inside
    rw [n.rebuilt_mirrored]
    refine (plainly r v.other).inner ⟨rfl, trivial⟩ inside ?_ after distinct
    rwa [n.shape_mirrored, isLeaf_mirrored] at inner
  opened := (plainly r v.other).opened
  same := (plainly r v.other).same
  resolve _ := Probe.ask_run (Registry.resolveFrom_mirrored _ _)

namespace Registry
variable {r : Registry}

theorem mirrors_remember {m n : Memory} (seen : m.Mirrors r n) (name : String) (v : Variant) (b : Bool) :
    Memory.Mirrors r (m.rememberPresence (name, v) b) (n.rememberPresence (name, v.other) b) := by
  refine ⟨fun other w => ?_, seen.variation, seen.first, seen.second⟩
  rw [Memory.recall_remember, Memory.recall_remember, seen.presence]
  by_cases same : (other, w) = (name, v)
  · cases same
    rw [if_pos rfl, if_pos rfl]
  · have apart : (other, w.other) ≠ (name, v.other) := fun both =>
      same (Prod.ext (Prod.mk.inj both).1 (Variant.other_inj (Prod.mk.inj both).2))
    rw [if_neg same, if_neg apart]

theorem project_mirrored (definition : String) (n : Node) (v : Variant) :
    Alongside True (Memory.Mirrors r) Eq (r.mirrored.project definition n.mirrored v) (r.project definition n v.other) := by
  let recalls : (mirroring r v).Recalls :=
    ⟨Memory.Mirrors r, Iff.rfl, fun _ seen => seen.presence _ v, fun _ seen => mirrors_remember seen _ v _⟩
  exact (recalls.project_run rfl definition).weaken fun a b both => by
    cases both with
    | none => rfl
    | some same => exact congrArg some same.1

theorem projectDefinition_mirrored (name : String) (v : Variant) :
    Alongside True (Memory.Mirrors r) Eq (r.mirrored.projectDefinition name v) (r.projectDefinition name v.other) := by
  refine .bind (resolveFrom_mirrored name name) fun a b same => ?_
  have projected := project_mirrored name b.val v (r := r)
  rw [← same] at projected
  exact projected

end Registry
end TwinShape
