import TwinShape.Inquiry
import TwinShape.Registry.Basic

namespace TwinShape

structure Memory where
  -- Definitions whose node has been built and has passed its check.
  built : List String
  -- One entry for every time a definition was built, checked well or not.
  builds : List String
  -- Whether a definition has a shape in a variant.
  presence : List ((String × Variant) × Bool)
  -- Whether the two shapes of a definition differ.
  variation : List (String × Bool)

def Memory.blank : Memory := ⟨[], [], [], []⟩

-- A new definition can change both kinds of answers, but not a node that is built.
def Memory.forgetAnswers (m : Memory) : Memory := { m with presence := [], variation := [] }

def Memory.recallPresence (m : Memory) (key : String × Variant) : Option Bool := m.presence.lookup key

def Memory.recallVariation (m : Memory) (name : String) : Option Bool := m.variation.lookup name

abbrev Question (α : Type) := Inquiry Memory Fault α

namespace Registry

abbrev Found (r : Registry) (name : String) := { n : Node // r.find? name = some n }

-- The node of a definition, built and checked when it is first asked for. A node that fails
-- its check is not kept, so it is built again next time.
def resolveFrom (r : Registry) (referencing name : String) : Question (r.Found name) := fun m =>
  match h : r.find? name with
  | none => (.error (.unknownDefinition referencing name), m)
  | some n =>
    if name ∈ m.built then (.ok ⟨n, h⟩, m)
    else
      let m := { m with builds := m.builds ++ [name] }
      match n.firstFlaw? r.engines.pattern .root with
      | some finding => (.error (.construction name finding), m)
      | none => (.ok ⟨n, h⟩, { m with built := m.built ++ [name] })

def resolve (r : Registry) (name : String) : Question (r.Found name) := r.resolveFrom name name

def resolveEach (r : Registry) : List String → Question Unit
  | [] => pure ()
  | name :: rest => do
    let _ ← r.resolve name
    r.resolveEach rest

def resolveAll (r : Registry) : Question Unit := r.resolveEach r.names

end Registry
end TwinShape
