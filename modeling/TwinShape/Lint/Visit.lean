import TwinShape.Node.Basic
import TwinShape.Node.Place

namespace TwinShape

mutual
-- A node and all nodes below it with their places, a node before what it holds. Of a linked
-- node only the schema side is visited, at the place of the linked node itself.
def Node.visited (place : Place) : Node → List (Place × Node)
  | ⟨shape, annotations, optionality, restriction, misuse⟩ =>
    (place, ⟨shape, annotations, optionality, restriction, misuse⟩) :: shapeVisited place shape

def shapeVisited (place : Place) : Shape Node → List (Place × Node)
  | .object ⟨properties, additional, parents⟩ =>
    propertiesVisited place properties ++ additionalVisited place additional ++
      nodesVisited (place.item "extends") 0 parents
  | .array item => item.visited (place.child "items")
  | .union members => nodesVisited (place.item "anyOf") 0 members
  | .linked _ schema => schema.visited place
  | _ => []

def propertiesVisited (place : Place) : List (Property Node) → List (Place × Node)
  | [] => []
  | ⟨name, value, _⟩ :: rest => value.visited (place.property name) ++ propertiesVisited place rest

def additionalVisited (place : Place) : Additional Node → List (Place × Node)
  | .forbidden | .allowed => []
  | .shape n => n.visited (place.child "additionalProperties")

def nodesVisited (place : Nat → Place) (i : Nat) : List Node → List (Place × Node)
  | [] => []
  | n :: rest => n.visited (place i) ++ nodesVisited place (i + 1) rest
end

end TwinShape
