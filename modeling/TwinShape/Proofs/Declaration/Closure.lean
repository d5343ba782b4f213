import Mathlib
import TwinShape.Node.Builder
import TwinShape.Proofs.Declaration.Printing
import TwinShape.Proofs.Declaration.Writing
import TwinShape.Proofs.Variation.Detection
import TwinShape.Schema.Evaluator

namespace TwinShape

namespace Registry
variable {r : Registry} {suffix : String} {names : List String}

structure Fulfils (r : Registry) (suffix name : String) (d : Draft) (declared : List String) : Prop where
  external : (r.projectDefinition name .external d.memory).1 = .ok (some n) → name ∈ declared
  internal : declare r ⟨suffix, .external, [], ""⟩ name d = (.ok given, d₁) → r.differs name d₁.memory = (true, m) →
    (r.projectDefinition name .internal m).1 = .ok (some n) → name ++ suffix ∈ declared

theorem Fulfils.mono {declared more : List String} (fulfils : Fulfils r suffix name d declared) (le : declared ⊆ more) :
    Fulfils r suffix name d more :=
  ⟨fun projected => le (fulfils.external projected), fun done compared projected =>
    le (fulfils.internal done compared projected)⟩

end Registry
end TwinShape
