import TwinShape.Proofs.Projection.Completeness

namespace TwinShape

-- What is known about presence in a variant is not lost, and nothing is found out about
-- names that are not registered.
structure Memory.Grows (r : Registry) (v : Variant) (m m' : Memory) : Prop where
  built : m.Built r → m'.Built r
  kept : m.recallPresence (name, v) = some b → m'.recallPresence (name, v) = some b
  new : m'.recallPresence (name, v) = some b → m.recallPresence (name, v) = some b ∨ name ∈ r.names

namespace Memory.Grows
variable {r : Registry} {v : Variant} {m m' m'' : Memory}

theorem refl : m.Grows r v m := ⟨id, id, .inl⟩

theorem trans (first : m.Grows r v m') (second : m'.Grows r v m'') : m.Grows r v m'' := by
  refine ⟨fun built => second.built (first.built built), fun known => second.kept (first.kept known), fun known => ?_⟩
  rcases second.new known with known | registered
  · exact first.new known
  · exact .inr registered

theorem resolve (referencing name : String) : m.Grows r v (r.resolveFrom referencing name m).2 := by
  have same := fun key => Registry.recall_of_same (Registry.resolveFrom_same (r := r) referencing name m) key
  refine ⟨fun built => Registry.resolveFrom_built built _ _, fun known => ?_, fun known => ?_⟩
  · rwa [same]
  · rw [same] at known
    exact .inl known

theorem remember (grows : m.Grows r v m') (unknown : m.recallPresence (name, v) = none)
    (registered : name ∈ r.names) (present : Bool) : m.Grows r v (m'.rememberPresence (name, v) present) := by
  refine ⟨grows.built, fun {other b} known => ?_, fun {other b} known => ?_⟩
  · rw [Memory.recall_remember, if_neg ?_]
    · exact grows.kept known
    · intro same
      cases same
      rw [unknown] at known
      cases known
  · rw [Memory.recall_remember] at known
    split at known
    · rename_i same
      cases same
      exact .inr registered
    · exact grows.new known

end Memory.Grows

namespace Registry
variable {r : Registry} {v : Variant}

def growing (r : Registry) (v : Variant) (m m' : Memory) : Course Trail Fault where
  before t u := t.memory.Grows r v u.memory
  refl := .refl
  trans := .trans
  first := ⟨m, false⟩
  last := ⟨m', false⟩
  fault _ := True

variable {m k : Memory} (built : m.Built r)
include built

theorem resolve_growing (definition name : String) : (r.growing v m k).Says (fun target => r.Resolves name target.val)
    (Probe.ask (r.resolveFrom definition name)) := by
  intro t
  refine ⟨.resolve definition name, ?_⟩
  unfold Probe.ask Inquiry.within
  dsimp only
  rcases answer : (r.resolveFrom definition name t.memory).1 with e | target
  · trivial
  · intro from_ _
    exact resolution_ok ((resolveFrom_answer (from_.built built).sound definition name).symm.trans answer)

-- Whatever is found present is known to be present afterwards, unless it is still being decided.
theorem presence_growing (scope : Scope) (name : String) : (r.growing v m k).Says
    (fun present => present = true → name ∈ scope.projecting ∨ k.recallPresence (name, v) = some true)
    (isPresent r v scope name) := by
  intro t
  rw [isPresent_eq]
  cases recalled : t.memory.recallPresence (name, v) with
  | some known => exact ⟨.refl, fun _ to_ yes => .inr (to_.kept (yes ▸ recalled))⟩
  | none =>
    dsimp only
    by_cases busy : name ∈ scope.projecting
    · rw [if_pos busy]
      exact ⟨.refl, fun _ _ _ => .inl busy⟩
    · rw [if_neg busy]
      have came : t.memory.Grows r v (r.resolveFrom scope.definition name t.memory).2 := .resolve _ _
      dsimp only [Bind.bind, Inquiry.bind, Probe.ask, Inquiry.within]
      revert came
      rcases r.resolveFrom scope.definition name t.memory with ⟨e | target, m₁⟩ <;> intro came
      · exact ⟨came, trivial⟩
      · have run := node_projected (fun _ _ => trivial) (resolve_growing built)
          (fun inner other (level : inner.projecting = name :: scope.projecting) =>
            level ▸ presence_growing inner other) target.val (.start name (name :: scope.projecting)) rfl
        have ⟨went, _⟩ := run ⟨m₁, false⟩
        dsimp only
        rw [settlePresence_eq]
        revert went
        rcases projectNode r v (.start name (name :: scope.projecting)) target.val ⟨m₁, false⟩ with ⟨e | kept, after⟩ <;>
          intro went
        · exact ⟨came.trans went, trivial⟩
        · have grown := fun b => (came.trans went).remember recalled (r.mem_names_of_find? target.property) b
          dsimp only
          cases kept with
          | some n =>
            refine ⟨grown true, fun _ to_ _ => .inr (to_.kept ?_)⟩
            exact (Memory.recall_remember _ _ _ _).trans (if_pos rfl)
          | none =>
            refine ⟨?_, fun _ _ => nofun⟩
            split
            · exact grown false
            · exact came.trans went
termination_by r.unvisited scope.projecting
decreasing_by
  rw [level]
  exact r.unvisited_cons_lt (r.mem_names_of_find? target.property) busy

theorem supported_of_presence (unknown : m.recallPresence (name, v) = none)
    (decided : r.presenceFrom referencing name v m = (.ok true, m')) :
    ∃ n, r.Resolves name n ∧ n.Present v fun other => m'.recallPresence (other, v) = some true := by
  have came : m.Grows r v (r.resolveFrom referencing name m).2 := .resolve _ _
  have found := resolveFrom_answer built.sound referencing name
  rw [presenceFrom_eq, unknown] at decided
  dsimp only at decided
  revert decided came found
  rcases r.resolveFrom referencing name m with ⟨e | target, m₁⟩ <;> intro decided came found
  · cases decided
  · have resolves := resolution_ok found.symm
    dsimp only at decided
    rw [settlePresence_eq] at decided
    have run := fun after : Trail => node_projected (fun _ _ => trivial)
      (resolve_growing (k := after.memory) (came.built built))
      (fun inner other (level : inner.projecting = [name]) => level ▸ presence_growing (v := v) (came.built built) inner other)
      target.val (.start name [name]) rfl ⟨m₁, false⟩
    revert decided run
    rcases projectNode r v (.start name [name]) target.val ⟨m₁, false⟩ with ⟨e | out, after⟩ <;> intro decided run
    · cases decided
    · have ⟨answer, same⟩ := Prod.mk.inj decided
      dsimp only at answer same
      have some_ : out.isSome = true := Except.ok.inj answer
      rw [some_] at same
      subst same
      have projects := (run after).2 .refl .refl
      refine ⟨target.val, resolves, projects.present_of_isSome (fun other answered => ?_) some_⟩
      change (after.memory.rememberPresence (name, v) true).recallPresence (other, v) = some true
      rw [Memory.recall_remember]
      split
      · rfl
      · rename_i apart
        rcases answered rfl with here | known
        · exact absurd (congrArg (·, v) (List.mem_singleton.1 here)) apart
        · exact known

theorem presenceFrom_grows (referencing name : String) : m.Grows r v (r.presenceFrom referencing name v m).2 := by
  unfold presenceFrom Probe.alone
  exact (presence_growing (k := m) built (.start referencing []) name ⟨m, false⟩).1

end Registry
end TwinShape
