import TwinShape.Node.Builder
import TwinShape.Registry.Basic

namespace TwinShape.Catalog

def explained (n : Node) (title description : String) : Node :=
  (n.title title).description description

def choice (values : List String) : Node := .enumOf (values.map .string)

def counts (first amount : Nat) (small : first + amount < 1000 := by decide) : Node :=
  .enumOf ((List.finRange amount).map fun i => .int ⟨first + i.val, by omega, by omega⟩)

def example? (text : String) (n : Node) : Node := n.addExample (.string text)

def orExpression (literal : Node) : Node := .unionOf [literal, .referenceTo "Expression"]

end TwinShape.Catalog
