import TwinShape.Node.Builder
import TwinShape.Proofs.Node.Demands
import TwinShape.Proofs.Projection.Completeness
import TwinShape.Schema.Evaluator

namespace TwinShape
namespace Registry
variable {r : Registry} {name : String} {n : Node}

theorem resolution_of_sound (found : r.find? name = some n) (sound : n.Each (Node.LocallySound r.engines.pattern))
    (referencing : String) :
    r.resolution referencing name = .ok ⟨n, found⟩ := resolution_of_resolves ⟨found, n.firstFlaw?_none.2 sound⟩ referencing

theorem Resolves.locallySound (resolves : r.Resolves name n) : n.Each (Node.LocallySound r.engines.pattern) :=
  n.firstFlaw?_none.1 resolves.2

end Registry

-- A node passes the check if and only if it and all nodes inside of it are well-formed; otherwise
-- what is found is the first of its demands, in order, that is not met.
theorem Session.construction_exact (n : Node) :
    (∀ engine, (n.firstFlaw? engine .root = none ↔ n.Each (Node.LocallySound engine)) ∧
      ∀ finding, n.firstFlaw? engine .root = some finding ↔ n.FirstBreach engine finding) ∧
    ∀ s : Session, s.Reached → ∀ name,
      (∀ found : s.registry.find? name = some n, ∀ referencing,
        (n.Each (Node.LocallySound s.registry.engines.pattern) →
          (s.registry.resolveFrom referencing name s.memory).1 = .ok ⟨n, found⟩) ∧
        ∀ finding, n.FirstBreach s.registry.engines.pattern finding →
          (s.registry.resolveFrom referencing name s.memory).1 = .error (.construction name finding)) ∧
      (name ∈ s.memory.built →
        ∃ built, s.registry.find? name = some built ∧ built.Each (Node.LocallySound s.registry.engines.pattern)) ∧
      ∀ referencing target, (s.registry.resolveFrom referencing name s.memory).1 = .ok target →
        target.val.Each (Node.LocallySound s.registry.engines.pattern) := by
  refine ⟨fun engine => ⟨n.firstFlaw?_none, n.firstFlaw?_some⟩, fun s reached name => ?_⟩
  have built := reached.fair.built
  have answer := fun referencing => Registry.resolveFrom_answer built.sound referencing name
  refine ⟨fun found referencing => ⟨fun sound => ?_, fun finding breach => ?_⟩, fun member => ?_, fun referencing target accepted => ?_⟩
  · rw [answer]
    exact Registry.resolution_of_sound found sound referencing
  · rw [answer]
    exact Registry.resolution_flawed found ((n.firstFlaw?_some finding).2 breach) referencing
  · obtain ⟨m, resolves⟩ := built name member
    exact ⟨m, resolves.1, resolves.locallySound⟩
  · rw [answer] at accepted
    exact (Registry.resolution_ok accepted).locallySound

-- A default of an item is wrong before the name of a later property is.
def cluttered : Node :=
  .ofProperties [.of "a" (.arrayOf (Node.integer.optionalWith (.string "x"))), .of "b" .string, .of "a" .null]

theorem Session.construction_exact_cluttered :
    ¬cluttered.Each (Node.LocallySound Engines.builtIn.pattern) ∧
    ∃ finding, cluttered.FirstBreach Engines.builtIn.pattern finding ∧
      finding.place.text = "/properties/a/items/default" ∧
      finding.flaw.message = "default \"x\" (string) is not a valid integer" ∧
      ((Session.start ⟨[⟨"Cluttered", cluttered⟩], by decide, .builtIn⟩).registry.resolveFrom "Cluttered" "Cluttered" .blank).1 =
        .error (.construction "Cluttered" finding) := by
  obtain ⟨checks, sessions⟩ := construction_exact cluttered
  obtain ⟨passes, finds⟩ := checks Engines.builtIn.pattern
  have found : cluttered.firstFlaw? Engines.builtIn.pattern .root =
      some ⟨⟨["properties", "a", "items", "default"]⟩, .invalidDefault (.string "x") "integer"⟩ := rfl
  have breach := (finds _).1 found
  refine ⟨fun sound => Option.some_ne_none _ (found.symm.trans (passes.2 sound)), _, breach, by decide, by decide +kernel, ?_⟩
  exact ((sessions _ (.start _) "Cluttered").1 rfl "Cluttered").2 _ breach

end TwinShape
