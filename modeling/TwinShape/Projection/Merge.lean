import TwinShape.Node.Equality
import TwinShape.Table

namespace TwinShape

-- Properties gathered from parents and from the object itself, each with the index
-- of the parent it came from; own properties have none.
abbrev Merge := Table (Property Node × Option Nat)

namespace Merge

-- Takes over the properties of one parent. A name that another parent has given is kept as it
-- is if both agree, and is a collision otherwise, which names the property.
def inherit (m : Merge) (origin : Nat) : List (Property Node) → Except String Merge
  | [] => .ok m
  | p :: rest =>
    match m.get? p.name with
    | some (existing, from_) =>
      if from_ = some origin then inherit (m.set p.name (p, some origin)) origin rest
      else bif existing.same p then inherit m origin rest
      else .error p.name
    | none => inherit (m.set p.name (p, some origin)) origin rest

def override (m : Merge) (own : List (Property Node)) : Merge :=
  own.foldl (fun m p => m.set p.name (p, none)) m

def properties (m : Merge) : List (Property Node) := m.map (·.2.1)

end Merge

-- The last parent that does not forbid further properties decides for its child.
def Additional.inherit (before : Additional Node) : Additional Node → Additional Node
  | .forbidden => before
  | parent => parent

end TwinShape
