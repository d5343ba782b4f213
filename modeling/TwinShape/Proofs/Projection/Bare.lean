import TwinShape.Proofs.Projection.Runs

namespace TwinShape

-- A node that may stand for nothing but a reference.
inductive Node.Bare : Node → String → Prop
  | reference (same : n.shape = .reference name) : Bare n name
  | member (same : n.shape = .union members) (member : m ∈ members) (bare : Bare m name) : Bare n name
  | linked (same : n.shape = .linked declaration schema) (bare : Bare schema name) : Bare n name

theorem Node.not_bare_leaf {n : Node} (leaf : n.shape.isLeaf) : ¬n.Bare other := by
  intro bare
  cases bare with
  | reference same | member same | linked same =>
    rw [same] at leaf
    cases leaf

-- How projected shapes come from the shapes they were, as far as their references go.
inductive Shape.ComesFrom (projects : Node → Node → Prop) : Shape Node → Shape Node → Prop
  | object : ComesFrom projects (.object o) (.object o')
  | array : ComesFrom projects (.array n) (.array n')
  | union (each : ∀ m' ∈ ms', ∃ m ∈ ms, projects m m') : ComesFrom projects (.union ms) (.union ms')
  | linked (schema : projects s s') : ComesFrom projects (.linked d s) (.linked d' s')
  | same (s : Shape Node) : ComesFrom projects s s

section
variable {r : Registry} {v : Variant} {scope : Scope} {t t' : Trail}

def Becomes (r : Registry) (v : Variant) (scope : Scope) (n n' : Node) : Prop :=
  ∃ t t', projectNode r v scope n t = (.ok (some n'), t')

theorem projectMembers_from {ms ms' : List Node} (ran : projectMembers r v scope ms t = (.ok ms', t')) :
    ∀ m' ∈ ms', ∃ m ∈ ms, Becomes r v scope m m' := by
  induction ms generalizing ms' t with
  | nil =>
    rw [projectMembers] at ran
    cases ran
    exact fun m' member => absurd member List.not_mem_nil
  | cons m rest ih =>
    rw [projectMembers] at ran
    obtain ⟨kept, t₁, first, ran⟩ := Inquiry.of_bind_ok ran
    obtain ⟨others, t₂, later, ran⟩ := Inquiry.of_bind_ok ran
    cases ran
    intro m' member
    rcases List.mem_append.1 member with here | member
    · cases Option.mem_toList.1 here
      exact ⟨m, List.mem_cons_self, t, t₁, first⟩
    · obtain ⟨k, inside, becomes⟩ := ih later m' member
      exact ⟨k, List.mem_cons_of_mem _ inside, becomes⟩

theorem projectShape_from {s s' : Shape Node} (ran : projectShape r v scope s t = (.ok (some s'), t')) :
    Shape.ComesFrom (Becomes r v scope) s s' := by
  cases s with
  | object o =>
    obtain ⟨properties, additional, parents⟩ := o
    rw [projectShape] at ran
    obtain ⟨⟨merged, inherited⟩, t₁, -, ran⟩ := Inquiry.of_bind_ok ran
    obtain ⟨own, t₂, -, ran⟩ := Inquiry.of_bind_ok ran
    obtain ⟨rest, t₃, -, ran⟩ := Inquiry.of_bind_ok ran
    cases ran
    exact .object
  | array item =>
    rw [projectShape] at ran
    obtain ⟨kept, t₁, -, ran⟩ := Inquiry.of_bind_ok ran
    cases kept <;> cases ran
    exact .array
  | union members =>
    rw [projectShape] at ran
    obtain ⟨kept, t₁, inner, ran⟩ := Inquiry.of_bind_ok ran
    cases kept <;> cases ran
    exact .union (projectMembers_from inner)
  | reference name =>
    rw [projectShape] at ran
    obtain ⟨present, t₁, -, ran⟩ := Inquiry.of_bind_ok ran
    cases present <;> cases ran
    exact .same _
  | linked declaration schema =>
    rw [projectShape] at ran
    obtain ⟨first, t₁, -, ran⟩ := Inquiry.of_bind_ok ran
    obtain ⟨second, t₂, inner, ran⟩ := Inquiry.of_bind_ok ran
    cases first <;> cases second <;> cases ran
    exact .linked ⟨_, _, inner⟩
  | _ =>
    rw [projectShape_leaf rfl] at ran
    cases ran
    exact .same _

theorem projectNode_from {n n' : Node} (becomes : Becomes r v scope n n') :
    Shape.ComesFrom (Becomes r v scope) n.shape n'.shape := by
  obtain ⟨t, t', ran⟩ := becomes
  obtain ⟨shape, annotations, optionality, restriction, misuse⟩ := n
  rw [projectNode] at ran
  split at ran
  · obtain ⟨kept, t₁, inner, ran⟩ := Inquiry.of_bind_ok ran
    cases kept <;> cases ran
    exact projectShape_from inner
  · cases ran

-- A projected node comes down to no other reference than the node that it was.
theorem bare_of_projected {n n' : Node} (bare : n'.Bare name) (becomes : Becomes r v scope n n') : n.Bare name := by
  induction bare generalizing n with
  | reference same =>
    have origin := projectNode_from becomes
    rw [same] at origin
    cases shape : n.shape <;> rw [shape] at origin <;> cases origin
    exact .reference shape
  | member same member inner ih =>
    have origin := projectNode_from becomes
    rw [same] at origin
    cases shape : n.shape <;> rw [shape] at origin <;> cases origin
    · rename_i each
      obtain ⟨m, inside, becomes⟩ := each _ member
      exact .member shape inside (ih becomes)
    · exact .member shape member inner
  | linked same inner ih =>
    have origin := projectNode_from becomes
    rw [same] at origin
    cases shape : n.shape <;> rw [shape] at origin <;> cases origin
    · rename_i becomes
      exact .linked shape (ih becomes)
    · exact .linked shape inner

end
end TwinShape
