import TwinShape.Lint.Definition

namespace TwinShape

-- The check of an example or of the default of a node, against the node's own schema, neither
-- finds anything nor ends.
def Registry.Stuck (r : Registry) (definition : String) (n : Node) : Prop :=
  ∃ j, (j ∈ n.annotations.examples ∨ n.default? = some j) ∧ ∃ m schema definitions check,
    (r.nodeSchema definition n .definitions m).1 = .ok (some schema) ∧
      r.engines.schema (withDefinitions schema definitions) = .ok check ∧ (check j).first? = none

theorem badExamples_endless (stuck : badExamples check place i values = none) :
    ∃ j ∈ values, (check j).first? = none := by
  induction values generalizing i with
  | nil => cases stuck
  | cons value rest ih =>
    rw [badExamples] at stuck
    cases first : (check value).first? with
    | none => exact ⟨value, List.mem_cons_self, first⟩
    | some found =>
      rw [first] at stuck
      cases others : badExamples check place (i + 1) rest with
      | none =>
        obtain ⟨j, listed, endless⟩ := ih others
        exact ⟨j, List.mem_cons_of_mem _ listed, endless⟩
      | some found =>
        rw [others] at stuck
        cases stuck

theorem badDefault_endless {default? : Option Json} (stuck : badDefault check place default? = none) :
    ∃ j, default? = some j ∧ (check j).first? = none := by
  cases default? with
  | none => cases stuck
  | some value =>
    rw [badDefault] at stuck
    cases first : (check value).first? with
    | none => exact ⟨value, rfl, first⟩
    | some found =>
      rw [first] at stuck
      cases stuck

theorem badValues_endless {n : Node} (stuck : badValues check place n = none) :
    ∃ j, (j ∈ n.annotations.examples ∨ n.default? = some j) ∧ (check j).first? = none := by
  unfold badValues at stuck
  cases examples : badExamples check place 0 n.annotations.examples with
  | none =>
    obtain ⟨j, listed, endless⟩ := badExamples_endless examples
    exact ⟨j, .inl listed, endless⟩
  | some found =>
    rw [examples] at stuck
    cases given : badDefault check place n.default? with
    | none =>
      obtain ⟨j, given, endless⟩ := badDefault_endless given
      exact ⟨j, .inr given, endless⟩
    | some found =>
      rw [given] at stuck
      cases stuck

namespace Registry
variable {r : Registry} {all : Json}

theorem checkValues_endless (stuck : (r.checkValues definition all place n m).1 = none) : r.Stuck definition n := by
  unfold checkValues at stuck
  rcases written : r.nodeSchema definition n .definitions m with ⟨f | _ | schema, m'⟩ <;> rw [written] at stuck
  · cases stuck
  · cases stuck
  · dsimp only at stuck
    cases read : r.engines.schema (withDefinitions schema all) with
    | error why =>
      rw [read] at stuck
      cases stuck
    | ok check =>
      rw [read] at stuck
      obtain ⟨j, given, endless⟩ := badValues_endless stuck
      exact ⟨j, given, m, schema, all, check, congrArg Prod.fst written, read, endless⟩

theorem checkAllValues_endless (stuck : (r.checkAllValues definition all visited m).1 = none) :
    ∃ entry ∈ visited, r.Stuck definition entry.2 := by
  induction visited generalizing m with
  | nil => cases stuck
  | cons entry rest ih =>
    obtain ⟨place, n⟩ := entry
    rw [checkAllValues] at stuck
    cases skipped : n.annotations.examples.isEmpty && n.default?.isNone <;> rw [skipped] at stuck
    · rw [cond_false] at stuck
      rcases checked : r.checkValues definition all place n m with ⟨_ | found, m'⟩ <;> rw [checked] at stuck
      · exact ⟨_, List.mem_cons_self, checkValues_endless (congrArg Prod.fst checked)⟩
      · obtain ⟨other, listed, stuck⟩ := ih (Option.map_eq_none_iff.1 stuck)
        exact ⟨other, List.mem_cons_of_mem _ listed, stuck⟩
    · obtain ⟨other, listed, stuck⟩ := ih stuck
      exact ⟨other, List.mem_cons_of_mem _ listed, stuck⟩

theorem lintSchema_endless (stuck : (r.lintSchema name external m).1 = none) :
    ∃ entry ∈ external.visited .root, r.Stuck name entry.2 := by
  unfold lintSchema at stuck
  rcases written : r.schemaFor [name] .plain m with ⟨f | reachable, m'⟩ <;> rw [written] at stuck
  · cases stuck
  · exact checkAllValues_endless stuck

-- A definition is examined to the end unless a value in its external shape cannot be checked.
theorem lintDefinition_endless (stuck : (r.lintDefinition name m).1 = none) :
    ∃ m' external, (r.projectDefinition name .external m').1 = .ok (some external) ∧
      ∃ entry ∈ external.visited .root, r.Stuck name entry.2 := by
  replace stuck : (r.diagnostics name m).1 = none := Option.map_eq_none_iff.1 stuck
  unfold diagnostics lintProjection at stuck
  rcases built : r.resolve name m with ⟨e | target, m₁⟩ <;> rw [built] at stuck
  · cases stuck
  dsimp only at stuck
  rcases outside : r.projectDefinition name .external m₁ with ⟨f | _ | external, m₂⟩ <;> rw [outside] at stuck
  · cases stuck
  · dsimp only at stuck
    rcases inside : r.projectDefinition name .internal m₂ with ⟨f | _ | n, m₃⟩ <;> rw [inside] at stuck <;> cases stuck
  · dsimp only at stuck
    rcases inside : r.projectDefinition name .internal m₂ with ⟨f | _ | n, m₃⟩ <;> rw [inside] at stuck
    · cases stuck
    all_goals exact ⟨m₁, external, congrArg Prod.fst outside, lintSchema_endless (Option.map_eq_none_iff.1 stuck)⟩

end Registry

end TwinShape
