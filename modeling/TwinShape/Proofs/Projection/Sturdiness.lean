import TwinShape.Proofs.Projection.Echoes

namespace TwinShape

-- What is known is right, and is about definitions that there are.
structure Memory.Informed (r : Registry) (m : Memory) : Prop where
  exact_ : r.exactness.Holds m
  listed : r.listing.Holds m

theorem Session.Reached.informed {r : Registry} (reached : Session.Reached ⟨r, m⟩) : m.Informed r :=
  ⟨reached.holds Registry.exactness, reached.holds Registry.listing⟩

namespace Registry
variable {r : Registry} {v : Variant}

-- Every definition comes through its projection, at one time or another.
def Sturdy (r : Registry) (v : Variant) : Prop :=
  ∀ name ∈ r.names, ∃ m out, m.Informed r ∧ (r.projectDefinition name v m).1 = .ok out

theorem informed_resolve {m : Memory} (informed : m.Informed r) (referencing name : String) :
    (r.resolveFrom referencing name m).2.Informed r :=
  ⟨informed.exact_.resolve referencing name, informed.listed.resolve referencing name⟩

def bothInformed (r : Registry) (t u : Trail) : Prop := t.memory.Informed r ∧ u.memory.Informed r

theorem resolve_echoes (definition name : String) : Inquiry.Echoes r.bothInformed
    (Probe.ask (r.resolveFrom definition name)) (Probe.ask (r.resolveFrom definition name)) := by
  rintro t u target t' ⟨left, right⟩ ran
  have first := resolveFrom_answer left.exact_.built.sound definition name
  have second := resolveFrom_answer right.exact_.built.sound definition name
  have ⟨found, same⟩ := Prod.mk.inj ran
  subst same
  refine ⟨{ u with memory := (r.resolveFrom definition name u.memory).2 }, ?_, ?_⟩
  · exact Prod.ext ((second.trans first.symm).trans found) rfl
  · exact ⟨informed_resolve left definition name, informed_resolve right definition name⟩

section
variable (unlinked : r.Unlinked)
include unlinked

theorem presence_informed {scope : Scope} {n : Node} {name : String} (near : r.exactness.near v scope.projecting n)
    (busy : ∀ b ∈ scope.projecting, b ∈ r.names) (inside : n.restriction.includes v) (shape : n.shape = .reference name)
    {t t' : Trail} (informed : t.memory.Informed r) (ran : isPresent r v scope name t = (.ok present, t')) :
    t'.memory.Informed r ∧ r.Exactly v name present ∧ name ∈ r.names := by
  have right := Course.keeping_elim (Verdict.presence_finds scope name near inside shape) r.exactness.holds_blank informed.exact_
  have listed := Course.keeping_elim (r.listing.presence_finds scope name busy inside shape) r.listing.holds_blank informed.listed
  rw [ran] at right listed
  exact ⟨⟨right.1, listed.1⟩, right.2 _ rfl unlinked, listed.2 _ rfl⟩

-- A definition comes through while others are being decided, if it does on its own and no
-- presence check within fails.
theorem definition_echoes {busy : List String} {target : Node} (listed : ∀ b ∈ busy, b ∈ r.names)
    (here : r.exactness.near v busy target)
    (checks : ∀ (scope : Scope) n name, scope.projecting = busy → r.exactness.near v busy n → n.restriction.includes v →
      n.shape = .reference name → name ∈ r.names → ∀ t : Trail, t.memory.Informed r →
        ∃ present t', isPresent r v scope name t = (.ok present, t')) (name : String) :
    Inquiry.Echoes r.bothInformed (projectNode r v (.start name []) target) (projectNode r v (.start name busy) target) := by
  have inward : ∀ {n c}, r.exactness.near v [] n ∧ r.exactness.near v busy n → n.restriction.includes v → c ∈ n.children →
      r.exactness.near v [] c ∧ r.exactness.near v busy c :=
    fun near inside child => ⟨r.exactness.inward near.1 inside child, r.exactness.inward near.2 inside child⟩
  have merging : ∀ {n o} {c : Node} {other t}, r.exactness.near v [] n ∧ r.exactness.near v busy n → n.restriction.includes v →
      n.shape = .object o → c ∈ o.parents → c.shape = .reference other → r.find? other = some t →
        r.exactness.near v [] t ∧ r.exactness.near v busy t :=
    fun near inside shape member named found => ⟨r.exactness.merging near.1 inside shape member named found,
      r.exactness.merging near.2 inside shape member named found⟩
  have decided : ∀ n (scope : Scope) other, r.exactness.near v [] n ∧ r.exactness.near v busy n → n.restriction.includes v →
      n.shape = .reference other → scope.projecting = [] →
        Inquiry.Echoes r.bothInformed (isPresent r v scope other) (isPresent r v (scope.under busy) other) := by
    rintro n scope other ⟨outer, inner⟩ inside shape level t u present t' ⟨left, right⟩ ran
    obtain ⟨left', first, registered⟩ := presence_informed unlinked (level ▸ outer) (level ▸ List.forall_mem_nil _) inside shape left ran
    obtain ⟨present', u', ran'⟩ := checks (scope.under busy) n other rfl inner inside shape registered u right
    have within : r.exactness.near v (scope.under busy).projecting n := inner
    obtain ⟨right', second, -⟩ := presence_informed unlinked within listed inside shape right ran'
    cases exactly_unique first second
    exact ⟨u', ran', left', right'⟩
  exact node_echoes inward merging resolve_echoes decided target ⟨r.exactness.start, here⟩ (.start name []) rfl

variable (sturdy : r.Sturdy v)
include sturdy

-- No presence check fails: what it projects comes through as it does on its own.
theorem presence_sturdy (scope : Scope) (n : Node) (name : String) (near : r.exactness.near v scope.projecting n)
    (busy : ∀ b ∈ scope.projecting, b ∈ r.names) (inside : n.restriction.includes v) (shape : n.shape = .reference name)
    (registered : name ∈ r.names) (t : Trail) (informed : t.memory.Informed r) :
    ∃ present t', isPresent r v scope name t = (.ok present, t') := by
  rw [isPresent_eq]
  cases t.memory.recallPresence (name, v) with
  | some known => exact ⟨known, t, rfl⟩
  | none =>
    dsimp only
    by_cases met : name ∈ scope.projecting
    · rw [if_pos met]
      exact ⟨_, _, rfl⟩
    · rw [if_neg met]
      obtain ⟨m, out, before, answered⟩ := sturdy name registered
      obtain ⟨target, resolves, projected⟩ := projectDefinition_ok before.exact_.built.sound answered
      have resolved := (resolveFrom_answer informed.exact_.built.sound scope.definition name).trans
        (resolution_of_resolves resolves scope.definition)
      have found : Probe.ask (r.resolveFrom scope.definition name) t =
          (.ok ⟨target, resolves.1⟩, { t with memory := (r.resolveFrom scope.definition name t.memory).2 }) :=
        Prod.ext resolved rfl
      have alongside := definition_echoes unlinked (List.forall_mem_cons.2 ⟨registered, busy⟩)
        (r.exactness.push near inside shape resolves) (fun inner n' other level near' inside' shape' registered' u informed' =>
          presence_sturdy inner n' other (level ▸ near') (level ▸ List.forall_mem_cons.2 ⟨registered, busy⟩) inside' shape'
            registered' u informed') name
      have own : projectNode r v (.start name []) target ⟨(r.resolve name m).2, false⟩ = (.ok out, _) := Prod.ext projected rfl
      obtain ⟨after, ran, -⟩ := alongside _ ⟨(r.resolveFrom scope.definition name t.memory).2, false⟩ _ _
        ⟨informed_resolve before name name, informed_resolve informed scope.definition name⟩ own
      rw [Inquiry.bind_ok found, settlePresence_eq]
      dsimp only
      rw [ran]
      exact ⟨_, _, rfl⟩
termination_by r.unvisited scope.projecting
decreasing_by
  rw [level]
  exact r.unvisited_cons_lt registered met

theorem project_sturdy {m : Memory} (informed : m.Informed r) (resolves : r.Resolves name n) :
    ∃ out, (r.project name n v m).1 = .ok out := by
  obtain ⟨m₀, out, before, answered⟩ := sturdy name (mem_names_of_find? resolves.1)
  obtain ⟨target, resolves', projected⟩ := projectDefinition_ok before.exact_.built.sound answered
  cases resolves.unique resolves'
  have here : r.exactness.near v [] n := r.exactness.start
  have alongside := definition_echoes unlinked (List.forall_mem_nil _) here (fun scope n other level near inside shape registered' u informed' =>
    presence_sturdy unlinked sturdy scope n other (level ▸ near) (level ▸ List.forall_mem_nil _) inside shape registered' u informed') name
  have own : projectNode r v (.start name []) n ⟨(r.resolve name m₀).2, false⟩ = (.ok out, _) := Prod.ext projected rfl
  obtain ⟨after, ran, -⟩ := alongside _ ⟨m, false⟩ _ _ ⟨informed_resolve before name name, informed⟩ own
  exact ⟨out, congrArg Prod.fst ran⟩

theorem projectDefinition_sturdy {m : Memory} (informed : m.Informed r) (registered : name ∈ r.names) :
    ∃ out, (r.projectDefinition name v m).1 = .ok out := by
  obtain ⟨m₀, out, before, answered⟩ := sturdy name registered
  obtain ⟨target, resolves, -⟩ := projectDefinition_ok before.exact_.built.sound answered
  rw [projectDefinition_of_resolves informed.exact_.built.sound resolves]
  exact project_sturdy unlinked sturdy (informed_resolve informed name name) resolves

end
end Registry
end TwinShape
