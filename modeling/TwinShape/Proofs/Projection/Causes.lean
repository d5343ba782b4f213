import Mathlib
import TwinShape.Node.Builder
import TwinShape.Proofs.Projection.Blame
import TwinShape.Schema.Evaluator

namespace TwinShape
namespace Registry

def Holds (r : Registry) (definition : String) (x : Node) : Prop := ∃ n, r.find? definition = some n ∧ x.Part n

-- What has been met with when a projection fails. The definition that a fault names is the one
-- that it was met with in, and what is known is what it was met with at.
inductive Cause (r : Registry) (v : Variant) : Fault → Memory → Prop
  | missing (unregistered : r.find? missing = none) (holds : r.Holds referencing x) (shape : x.shape = .reference missing) :
      Cause r v (.unknownDefinition referencing missing) m
  | flawed (found : r.find? name = some n) (flawed : n.firstFlaw? r.engines.pattern .root = some finding) : Cause r v (.construction name finding) m
  | collision (holds : r.Holds definition x) (shape : x.shape = .object o) (scope : s.definition = definition)
      (clash : ParentsClash r v s o.parents property ⟨m, leaned⟩) : Cause r v (.extendsCollision definition property) m
  | foreign (holds : r.Holds definition x) (shape : x.shape = .object o) (listed : p ∈ o.parents) (scope : s.definition = definition)
      (projects : ParentProjects r v s p out t ⟨m, leaned⟩) (other : out.object? = none) (kind : out.kindName = found) :
      Cause r v (.invalidExtends definition found) m
  | cycle (definition : String) (chain : List String) (m : Memory) : Cause r v (.cyclicExtends definition chain) m

-- The definition that faults are blamed on is the one whose tree is projected.
def causes (r : Registry) (v : Variant) : Blame r v where
  here s n := r.Holds s.definition n
  fault := r.Cause v
  inside := by
    rintro s n c ⟨root, found, part⟩ _ child
    exact ⟨root, found, .trans (.inside (Shape.child_of_projected child) .self) part⟩
  merged _ _ _ _ _ _ _ found := ⟨_, found, .self⟩
  decided _ _ _ found := ⟨_, found, .self⟩
  missing := by
    rintro s n name m holds _ (shape | ⟨o, shape, p, listed, named⟩) unregistered
    · exact .missing unregistered holds shape
    · obtain ⟨root, found, part⟩ := holds
      have child : p ∈ n.children := Node.child_of_shape shape (List.mem_append_right _ listed)
      exact .missing unregistered ⟨root, found, .trans (.inside child .self) part⟩ named
  flawed := .flawed
  circular _ _ _ _ _ _ := .cycle ..
  collides holds _ shape clash := .collision holds shape rfl clash
  foreign holds _ shape listed projects other := .foreign holds shape listed rfl projects other rfl

-- A projection that fails names the definition in which it failed.
theorem projection_blames {r : Registry} {n : Node} (registered : r.find? name = some n) (v : Variant)
    (failed : r.projectDefinition name v m = (.error e, m')) : r.Cause v e m' := by
  have cause := (r.causes v).definition_owns (fun _ unknown => nomatch registered.symm.trans unknown) (fun n found => ⟨n, found, .self⟩)
    (congrArg Prod.fst failed)
  rwa [failed] at cause

-- Asking for `Outer` has `Inner` projected, of which two parents do not agree.
def quarrelling : Registry :=
  ⟨[⟨"Outer", .ofProperties [.of "inner" (.referenceTo "Inner")]⟩,
    ⟨"Inner", .arrayOf (((Node.ofProperties []).extending (.referenceTo "Left")).extending (.referenceTo "Right"))⟩,
    ⟨"Left", .ofProperties [.of "key" .string]⟩, ⟨"Right", .ofProperties [.of "key" .number]⟩], by decide, .builtIn⟩

theorem projection_blames_inner :
    (quarrelling.projectDefinition "Outer" .external .blank).1 = .error (.extendsCollision "Inner" "key") ∧
    ∃ x o s t, quarrelling.Holds "Inner" x ∧ x.shape = .object o ∧ s.definition = "Inner" ∧
      ParentsClash quarrelling .external s o.parents "key" t := by
  have fault : (quarrelling.projectDefinition "Outer" .external .blank).1 = .error (.extendsCollision "Inner" "key") := by cbv
  refine ⟨fault, ?_⟩
  have registered : quarrelling.find? "Outer" = some (.ofProperties [.of "inner" (.referenceTo "Inner")]) := rfl
  cases projection_blames registered .external (Prod.ext fault rfl) with
  | collision holds shape scope clash => exact ⟨_, _, _, _, holds, shape, scope, clash⟩

end Registry
end TwinShape
