import TwinShape.Proofs.Emission.Declarations
import TwinShape.Proofs.Emission.Schemas
import TwinShape.Schema.Evaluator

namespace TwinShape
namespace Registry
variable {r : Registry} {v : Variant}

theorem Stops.named {y : Node} (stops : r.Stops b v definition y e) : e.definition = definition := by
  cases stops with
  | @intro n complaint told first inherits complains =>
    cases shape : y.shape with
    | raw declaration schema =>
      rw [shape] at complains
      cases b <;> cases declaration <;> cases schema <;> cases complains <;> rfl
    | imported =>
      rw [shape] at complains
      cases b <;> cases complains
      rfl
    | _ =>
      rw [shape] at complains
      cases b <;> cases complains

-- A fault is laid to the definition that a backend was writing, for a node that it has or
-- inherits, and that it has itself if it extends nothing.
def Blames (r : Registry) (b : Backend) (v : Variant) (e : Fault) : Prop :=
  ∃ y, r.Stops b v e.definition y e ∧ ((∀ parent, ¬r.Extends v e.definition parent) → r.Holds e.definition y)

theorem Stops.blames {y : Node} (stops : r.Stops b v definition y e) : r.Blames b v e := by
  refine ⟨y, stops.named ▸ stops, fun alone => ?_⟩
  rw [stops.named] at alone ⊢
  cases stops with
  | intro _ _ inherits _ => exact inherits.holds alone

-- What stopped a backend is the first node in the projection of the definition it names that there
-- is nothing to write for; the definition has it or inherits it.
theorem emission_blames (reached : r.InSession m) (unwritable : e.isUnwritable) :
    (∀ names suffix, (r.declarationsFor names suffix m).1 = .error e → ∃ v, r.Blames .declarations v e) ∧
    ∀ names options, (r.schemaFor names options m).1 = .error e → r.Blames .schema .external e := by
  refine ⟨fun names suffix failed => ?_, fun names options failed => ?_⟩
  · obtain ⟨v, definition, y, stops⟩ := declarationsFor_stops reached failed unwritable
    exact ⟨v, stops.blames⟩
  · obtain ⟨definition, y, stops⟩ := schemaFor_stops reached failed unwritable
    exact stops.blames

def dated : Registry := ⟨[⟨"Log", .arrayOf (.referenceTo "Entry")⟩, ⟨"Entry", .ofProperties [.of "at" (.importOf "Date" "dates")]⟩], by decide, .builtIn⟩

theorem emission_blames_entry : (dated.schemaFor ["Log"] .plain .blank).1 = .error
    (.unsupported "Entry" "import" .schema) ∧
    dated.Blames .schema .external (.unsupported "Entry" "import" .schema) := by
  have failed : (dated.schemaFor ["Log"] .plain .blank).1 = .error (.unsupported "Entry" "import" .schema) := by cbv
  exact ⟨failed, (emission_blames (.start dated) rfl).2 ["Log"] .plain failed⟩

-- An heir of what no backend can write.
def bequest : Registry :=
  ⟨[⟨"Heir", .extending (.ofProperties []) (.referenceTo "Base")⟩, ⟨"Base", .ofProperties [.of "x" .raw]⟩], by decide, .builtIn⟩

-- The heir is blamed, though nothing in it is raw.
theorem emission_blames_heir :
    (bequest.declarationsFor ["Heir"] "Internal" .blank).1 = .error (.missingRawBackend "Heir" .declarations) ∧
    (bequest.schemaFor ["Heir"] .plain .blank).1 = .error (.missingRawBackend "Heir" .schema) ∧
    ∀ y, bequest.Holds "Heir" y → ∀ declaration schema, y.shape ≠ .raw declaration schema := by
  refine ⟨by cbv, by cbv, ?_⟩
  rintro y ⟨n, found, part⟩ declaration schema raw
  cases found
  cases part with
  | self => cases raw
  | inside child inner =>
    cases List.mem_singleton.1 child
    cases inner with
    | self => cases raw
    | inside child _ => cases child

end Registry
end TwinShape
