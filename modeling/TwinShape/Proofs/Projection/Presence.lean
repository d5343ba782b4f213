import TwinShape.Proofs.Projection.Runs

namespace TwinShape

-- The end of a presence check: what the projection of the target came to is remembered,
-- unless it is an absence that leaned on an assumption.
def settlePresence (v : Variant) (name : String) (p : Probe (Option Node)) : Probe Bool := do
  let (kept, leaned) ← p.watch
  if kept.isSome || !leaned then
    Inquiry.learn fun t =>
      { t with memory.presence := ((name, v), kept.isSome) :: t.memory.presence }
  pure kept.isSome

def Memory.rememberPresence (m : Memory) (key : String × Variant) (present : Bool) : Memory :=
  { m with presence := (key, present) :: m.presence }

theorem Memory.recall_remember (m : Memory) (key other : String × Variant) (present : Bool) :
    (m.rememberPresence key present).recallPresence other =
      if other = key then some present else m.recallPresence other := by
  change (match other == key with
    | true => some present
    | false => m.presence.lookup other) = _
  by_cases same : other = key
  · rw [if_pos same, beq_iff_eq.2 same]
  · rw [if_neg same, beq_eq_false_iff_ne.2 same]
    rfl

theorem settlePresence_eq (v : Variant) (name : String) (p : Probe (Option Node)) (t : Trail) :
    settlePresence v name p t = match p { t with leaned := false } with
      | (.error e, after) => (.error e, { after with leaned := t.leaned || after.leaned })
      | (.ok kept, after) => (.ok kept.isSome,
          ⟨if kept.isSome || !after.leaned then after.memory.rememberPresence (name, v) kept.isSome else after.memory,
            t.leaned || after.leaned⟩) := by
  unfold settlePresence Probe.watch
  dsimp only [Bind.bind, Inquiry.bind]
  rcases p { t with leaned := false } with ⟨e | kept, after⟩
  · rfl
  · dsimp only
    by_cases known : (kept.isSome || !after.leaned) = true
    · rw [if_pos known, if_pos known]
      rfl
    · rw [if_neg known, if_neg known]
      rfl

def Probe.Seen (memory : Memory → Memory → Prop) (t u : Trail) : Prop :=
  memory t.memory u.memory ∧ t.leaned = u.leaned

theorem Probe.ask_run {strict : Prop} {memory : Memory → Memory → Prop} {P : α → β → Prop} {x : Question α}
    {y : Question β} (both : Alongside strict memory P x y) :
    Alongside strict (Probe.Seen memory) P (Probe.ask x) (Probe.ask y) := by
  intro t u seen
  have agree := both t.memory u.memory seen.1
  unfold Probe.ask Inquiry.within
  dsimp only
  rcases hx : x t.memory with ⟨a | a, m⟩ <;> rcases hy : y u.memory with ⟨b | b, n⟩ <;>
    rw [hx, hy] at agree
  · exact fun exact_ => ⟨(agree exact_).1, (agree exact_).2, seen.2⟩
  · exact agree
  · exact agree
  · exact ⟨agree.1, agree.2, seen.2⟩

def Probe.alone (p : Probe α) : Question α := fun m => ((p ⟨m, false⟩).1, (p ⟨m, false⟩).2.memory)

theorem Registry.project_eq (r : Registry) (definition : String) (n : Node) (v : Variant) :
    r.project definition n v = (projectNode r v (.start definition []) n).alone := rfl

theorem Probe.alone_run {strict : Prop} {P : α → β → Prop} {view : Trail → Trail → Prop}
    {memory : Memory → Memory → Prop} {p : Probe α} {q : Probe β} (both : Alongside strict view P p q)
    (enter : ∀ m n, memory m n → view ⟨m, false⟩ ⟨n, false⟩)
    (leave : ∀ t u, view t u → memory t.memory u.memory) : Alongside strict memory P p.alone q.alone := by
  intro m n seen
  have agree := both _ _ (enter m n seen)
  unfold Probe.alone
  revert agree
  rcases p ⟨m, false⟩ with ⟨e | a, t⟩ <;> rcases q ⟨n, false⟩ with ⟨f | b, u⟩ <;> intro agree
  · exact fun exact_ => ⟨(agree exact_).1, leave _ _ (agree exact_).2⟩
  · exact agree
  · exact agree
  · exact ⟨agree.1, leave _ _ agree.2⟩

theorem isPresent_eq (t : Trail) :
    isPresent r v scope name t = match t.memory.recallPresence (name, v) with
      | some known => (.ok known, t)
      | none =>
        if name ∈ scope.projecting then (.ok true, { t with leaned := true })
        else (Probe.ask (r.resolveFrom scope.definition name) >>= fun target =>
          settlePresence v name (projectNode r v (.start name (name :: scope.projecting)) target.val)) t := by
  rw [isPresent]
  change (match t.memory.recallPresence (name, v) with
    | some known => pure known
    | none => _ : Probe Bool) t = _
  cases t.memory.recallPresence (name, v) with
  | some known => rfl
  | none =>
    dsimp only
    by_cases busy : name ∈ scope.projecting
    · rw [dif_pos busy, if_pos busy]
      rfl
    · rw [dif_neg busy, if_neg busy]
      rfl

namespace Simulation
variable {r₁ r₂ : Registry} {v₁ v₂ : Variant}

structure Recalls (sim : Simulation r₁ r₂ v₁ v₂) where
  memory : Memory → Memory → Prop
  view : sim.view t u ↔ memory t.memory u.memory ∧ t.leaned = u.leaned
  known : sim.named name → memory m n → m.recallPresence (name, v₁) = n.recallPresence (name, v₂)
  remember : sim.named name → memory m n →
    memory { m with presence := ((name, v₁), b) :: m.presence }
      { n with presence := ((name, v₂), b) :: n.presence }

variable {sim : Simulation r₁ r₂ v₁ v₂} (recalls : sim.Recalls)
include recalls

theorem Recalls.watch_run {P : α → β → Prop} {p : Probe α} {q : Probe β} (both : sim.Runs P p q) :
    sim.Runs (fun a b => P a.1 b.1 ∧ a.2 = b.2) p.watch q.watch := by
  intro t u seen
  have ⟨known, leaned⟩ := recalls.view.1 seen
  have agree := both { t with leaned := false } { u with leaned := false }
    (recalls.view.2 ⟨known, rfl⟩)
  unfold Probe.watch
  rcases hp : p { t with leaned := false } with ⟨e | a, t'⟩ <;>
    rcases hq : q { u with leaned := false } with ⟨f | b, u'⟩ <;> rw [hp, hq] at agree
  · intro exact_
    have ⟨same, after⟩ := agree exact_
    have ⟨known', leaned'⟩ := recalls.view.1 after
    exact ⟨same, recalls.view.2 ⟨known', congrArg₂ (· || ·) leaned leaned'⟩⟩
  · exact agree
  · exact agree
  · have ⟨related, after⟩ := agree
    have ⟨known', leaned'⟩ := recalls.view.1 after
    exact ⟨⟨related, leaned'⟩, recalls.view.2 ⟨known', congrArg₂ (· || ·) leaned leaned'⟩⟩

theorem Recalls.settle_run {p q : Probe (Option Node)} (known : sim.named name)
    (both : sim.Runs (Option.Rel sim.result) p q) :
    sim.Runs Eq (settlePresence v₁ name p) (settlePresence v₂ name q) := by
  refine .bind (recalls.watch_run both) ?_
  rintro ⟨kept, leaned⟩ ⟨kept', leaned'⟩ ⟨nodes, rfl⟩
  have same : kept.isSome = kept'.isSome := by cases nodes <;> rfl
  dsimp only
  rw [same]
  split
  · refine .bind (P := fun _ _ => True) ?_ fun _ _ _ => .pure rfl
    intro t u seen
    have ⟨known', leaned'⟩ := recalls.view.1 seen
    exact ⟨trivial, recalls.view.2 ⟨recalls.remember known known', leaned'⟩⟩
  · exact .pure rfl

-- Presence checks agree at every level: fewer names are free to be entered one level down.
theorem Recalls.presence_run (scope : Scope) (name : String) (known : sim.named name) :
    sim.Runs Eq (isPresent r₁ v₁ scope name) (isPresent r₂ v₂ scope name) := by
  intro t u seen
  have ⟨memory, leaned⟩ := recalls.view.1 seen
  rw [isPresent_eq, isPresent_eq, recalls.known known memory]
  cases u.memory.recallPresence (name, v₂) with
  | some answer => exact ⟨rfl, seen⟩
  | none =>
    dsimp only
    by_cases busy : name ∈ scope.projecting
    · rw [if_pos busy, if_pos busy]
      exact ⟨rfl, recalls.view.2 ⟨memory, rfl⟩⟩
    · rw [if_neg busy, if_neg busy]
      refine Alongside.bind (sim.resolve known) (fun target target' nodes => ?_) t u seen
      refine recalls.settle_run known (node_run ?_ nodes _ rfl)
      exact fun inner other level known' => Recalls.presence_run inner other known'
termination_by r₁.unvisited scope.projecting
decreasing_by
  rw [level]
  exact r₁.unvisited_cons_lt (r₁.mem_names_of_find? target.property) busy

theorem Recalls.project_run {m n : Node} (related : sim.source m n) (definition : String) :
    Alongside sim.strict recalls.memory (Option.Rel sim.result)
      (r₁.project definition m v₁) (r₂.project definition n v₂) := by
  have nodes := node_run (fun scope name _ known => recalls.presence_run scope name known) related
    (.start definition []) rfl
  rw [Registry.project_eq, Registry.project_eq]
  exact Probe.alone_run nodes (fun _ _ seen => recalls.view.2 ⟨seen, rfl⟩) fun _ _ seen => (recalls.view.1 seen).1

end Simulation
end TwinShape
