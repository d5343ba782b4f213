import TwinShape.Proofs.Projection.Unison
import TwinShape.Proofs.Repetition

namespace TwinShape

-- What two memories say about presence, the first in one variant and the second in another.
structure Memory.Alike (r : Registry) (v₁ v₂ : Variant) (m n : Memory) : Prop where
  presence : ∀ name, m.recallPresence (name, v₁) = n.recallPresence (name, v₂)
  first : m.Sound r
  second : n.Sound r

namespace Unison
variable {r : Registry} {v₁ v₂ : Variant} (u : Unison r v₁ v₂)

variable (memory : Memory → Memory → Prop)
  (resolve : ∀ {name definition}, u.named name →
    Alongside True memory (fun a b => a.val = b.val ∧ u.good a.val)
      (r.resolveFrom definition name) (r.resolveFrom definition name))
  (known : ∀ {name m n}, u.named name → memory m n →
    m.recallPresence (name, v₁) = n.recallPresence (name, v₂))
  (remember : ∀ {name m n b}, u.named name → memory m n →
    memory (m.rememberPresence (name, v₁) b) (n.rememberPresence (name, v₂) b))
include resolve known remember

theorem project_run (good : u.good n) (definition : String) :
    Alongside True memory (Option.Rel fun a b => a = b ∧ u.Out a)
      (r.project definition n v₁) (r.project definition n v₂) := by
  let sim := u.simulation (Probe.Seen memory) fun known => Probe.ask_run (resolve known)
  let recalls : sim.Recalls := ⟨memory, Iff.rfl, known, remember⟩
  exact recalls.project_run ⟨rfl, good⟩ definition

end Unison

structure Node.Normal (n : Node) : Prop where
  unrestricted : n.restriction = .unrestricted
  proper : n.misuse = []
  tidy : n.shape.Tidy

def Unison.normal (r : Registry) (v : Variant) : Unison r v v :=
  { Unison.plain r v with
    kept := fun x => x.restriction = .unrestricted ∧ x.misuse = []
    leaf := fun _ _ => ⟨rfl, rfl⟩
    inner := fun _ _ _ _ _ => ⟨rfl, rfl⟩ }

namespace Registry
variable {r : Registry} {v : Variant}

theorem resolveFrom_alike {v₁ v₂ : Variant} (referencing name : String) :
    Alongside True (Memory.Alike r v₁ v₂) (fun a b => a.val = b.val ∧ r.Resolves name a.val)
      (r.resolveFrom referencing name) (r.resolveFrom referencing name) := by
  intro m n alike
  have first := resolveFrom_answer alike.first referencing name
  have second := resolveFrom_answer alike.second referencing name
  have after : Memory.Alike r v₁ v₂ (r.resolveFrom referencing name m).2 (r.resolveFrom referencing name n).2 := by
    refine ⟨fun other => ?_, resolveFrom_sound alike.first _ _, resolveFrom_sound alike.second _ _⟩
    rw [recall_of_same (resolveFrom_same _ _ _), recall_of_same (resolveFrom_same _ _ _)]
    exact alike.presence other
  revert first second after
  rcases r.resolveFrom referencing name m with ⟨e | a, m'⟩ <;>
    rcases r.resolveFrom referencing name n with ⟨f | b, n'⟩ <;> intro first second after
  · exact fun _ => ⟨Except.error.inj (first.trans second.symm), after⟩
  · cases first.trans second.symm
  · cases first.trans second.symm
  · cases first.trans second.symm
    exact ⟨⟨rfl, resolution_ok first.symm⟩, after⟩

theorem alike_remember {v₁ v₂ : Variant} {m n : Memory} (alike : Memory.Alike r v₁ v₂ m n)
    (name : String) (b : Bool) :
    Memory.Alike r v₁ v₂ (m.rememberPresence (name, v₁) b) (n.rememberPresence (name, v₂) b) := by
  refine ⟨fun other => ?_, alike.first, alike.second⟩
  rw [Memory.recall_remember, Memory.recall_remember, alike.presence other]
  by_cases same : other = name
  · rw [same, if_pos rfl, if_pos rfl]
  · rw [if_neg fun h => same (Prod.mk.inj h).1, if_neg fun h => same (Prod.mk.inj h).1]

theorem project_consistent {S : Memory → Memory → Prop}
    (resolve : ∀ referencing name, Consistent S (r.resolveFrom referencing name))
    (known : ∀ {m n}, S m n → ∀ name, m.recallPresence (name, v) = n.recallPresence (name, v))
    (remember : ∀ {m n}, S m n → ∀ name b, S (m.rememberPresence (name, v) b) (n.rememberPresence (name, v) b))
    (definition : String) (n : Node) : Consistent S (r.project definition n v) := by
  have resolved : ∀ {name definition}, Alongside True S (fun a b => a.val = b.val ∧ (Unison.plain r v).good a.val)
      (r.resolveFrom definition name) (r.resolveFrom definition name) := fun {name definition} m n seen =>
    .of_answer (resolve definition name m n seen).1 (resolve definition name m n seen).2 fun _ => ⟨rfl, trivial⟩
  have both := (Unison.plain r v).project_run S (fun _ => resolved) (fun _ seen => known seen _)
    (fun _ seen => remember seen _ _) (n := n) trivial definition
  refine .of_alongside (both.weaken fun a b related => ?_)
  cases related with
  | none => rfl
  | some same => exact congrArg some same.1

theorem projectDefinition_consistent (name : String) :
    Consistent (Memory.Alike r v v) (r.projectDefinition name v) := by
  have resolve : ∀ referencing other, Consistent (Memory.Alike r v v) (r.resolveFrom referencing other) := fun referencing other =>
    .of_alongside ((resolveFrom_alike referencing other).weaken fun _ _ both => Subtype.ext both.1)
  exact .bind (resolve name name) fun target =>
    project_consistent resolve (fun alike _ => alike.presence _) (fun alike _ _ => alike_remember alike _ _) name target.val

-- What can be said of everything that comes out, if something can be said of all that goes in.
theorem node_out (u : Unison r v v) (definitions : ∀ name target, r.find? name = some target → u.good target)
    (good : u.good n) (ran : projectNode r v scope n t = (.ok (some out), t')) : u.Out out := by
  have twice : ∀ {α : Type} (x : Probe α), Alongside True (fun t u => t = u ∧ True) Eq x x := fun _ => Inquiry.Keeps.twice fun _ _ => trivial
  let sim := u.simulation (fun t u => t = u ∧ True) fun {name definition} _ =>
    (twice (Probe.ask (r.resolveFrom definition name))).weaken fun a _ same => ⟨congrArg _ same, definitions _ a.val a.property⟩
  have related : sim.source n n := ⟨rfl, good⟩
  have run := Simulation.node_run (fun _ _ _ _ => twice _) related scope rfl t t ⟨rfl, trivial⟩
  rw [ran] at run
  cases run.1 with
  | some kept => exact kept.2

theorem project_out (u : Unison r v v) (definitions : ∀ name target, r.find? name = some target → u.good target)
    (good : u.good n) (projected : (r.project definition n v m).1 = .ok (some out)) : u.Out out := by
  rw [project_eq] at projected
  unfold Probe.alone at projected
  rcases ran : projectNode r v (.start definition []) n ⟨m, false⟩ with ⟨answer, t⟩
  rw [ran] at projected
  cases projected
  exact node_out u definitions good ran

theorem project_tidies (projected : (r.project definition n v m).1 = .ok (some out)) :
    out.Each Node.Normal := by
  have all := project_out (.normal r v) (fun _ _ _ => trivial) trivial projected
  exact fun x part => ⟨(all x part).2.1, (all x part).2.2, (all x part).1⟩

-- What holds of the memory and is kept by resolving and by remembering is kept by projecting.
theorem project_keeps {J : Memory → Prop}
    (resolve : ∀ referencing name, Inquiry.Keeps J (r.resolveFrom referencing name))
    (remember : ∀ m name b, J m → J (m.rememberPresence (name, v) b)) (definition : String) (n : Node) :
    Inquiry.Keeps J (r.project definition n v) := by
  intro m held
  refine (project_consistent (S := fun m n => m = n ∧ J m) (fun referencing name => .of_kept (resolve referencing name))
    (fun seen _ => seen.1 ▸ rfl) (fun seen name b => ⟨seen.1 ▸ rfl, remember _ name b seen.2⟩) definition n).kept held

theorem project_sound {m : Memory} (sound : m.Sound r) (definition : String) (n : Node) :
    (r.project definition n v m).2.Sound r :=
  project_keeps (J := fun m => m.Sound r)
    (fun referencing name _ held => resolveFrom_sound held referencing name)
    (fun _ _ _ held => held) definition n m sound

theorem project_other {w : Variant} (other : v ≠ w) (definition : String) (n : Node) (m : Memory)
    (name : String) :
    (r.project definition n v m).2.recallPresence (name, w) = m.recallPresence (name, w) := by
  refine project_keeps (J := fun m' => m'.recallPresence (name, w) = m.recallPresence (name, w))
    (fun referencing other m' held => ?_) (fun m' other' b held => ?_) definition n m rfl
  · exact (recall_of_same (resolveFrom_same _ _ _) _).trans held
  · rw [Memory.recall_remember, if_neg fun h => other (Prod.mk.inj h).2.symm]
    exact held

theorem project_variation (definition : String) (n : Node) (m : Memory) :
    (r.project definition n v m).2.variation = m.variation :=
  project_keeps (J := fun m' => m'.variation = m.variation)
    (fun _ _ _ held => (resolveFrom_same _ _ _).variation.trans held) (fun _ _ _ held => held) definition n m rfl

end Registry
end TwinShape
