import TwinShape.Node.Literal
import TwinShape.Node.Variant

namespace TwinShape

-- Functions have no decidable equality. Whoever makes one gives it a mark of its
-- own, and two functions count as the same when their marks are.
structure Mark where
  owner : String
  -- The way from the owner's root to the node, the last step first.
  path : List Nat
deriving DecidableEq

def Mark.child (m : Mark) (i : Nat) : Mark := { m with path := i :: m.path }

structure Marked (α : Type) where
  mark : Mark
  content : α

structure Naming where
  mark : Mark
  symbol : Literal → String

structure Annotations where
  title : Option String
  description : Option String
  examples : List Json
  deprecated : Option String
  -- Only written into declarations.
  comment : Option String
  pattern : Option String

def Annotations.blank : Annotations := ⟨none, none, [], none, none, none⟩

-- The default of an optional value is documentation; nothing is filled in.
inductive Optionality where
  | required
  | optional (default : Option Json)

structure Property (ν : Type) where
  name : String
  value : ν
  restriction : Restriction

-- What an object may hold beside its properties.
inductive Additional (ν : Type) where
  | forbidden
  | allowed
  | shape (node : ν)

structure ObjectShape (ν : Type) where
  properties : List (Property ν)
  additional : Additional ν
  -- References and inline objects, merged in before the own properties.
  parents : List ν

inductive Shape (ν : Type) where
  | object (o : ObjectShape ν)
  | array (item : ν)
  | union (members : List ν)
  | enumeration (values : List Literal) (naming : Option Naming)
  | constant (value : Literal)
  | string
  | number
  | integer
  | boolean
  | null
  | reference (name : String)
  | raw (declaration : Option (Marked String)) (schema : Option (Marked Json))
  | imported (name module : String)
  -- Declarations are taken from one side, the schema from the other.
  | linked (declaration schema : ν)

namespace Shape

def kindName {ν : Type} : Shape ν → String
  | .object _ => "object"
  | .array _ => "array"
  | .union _ => "union"
  | .enumeration .. => "enum"
  | .constant _ => "const"
  | .string => "string"
  | .number => "number"
  | .integer => "integer"
  | .boolean => "boolean"
  | .null => "null"
  | .reference _ => "reference"
  | .raw .. => "raw"
  | .imported .. => "import"
  | .linked .. => "linked"

end Shape

inductive Misuse where
  | annotatedReference (name what : String)
  | pattern (kind : String)
  | property (name kind : String)
  | parent (kind : String)
  | additional (kind : String)
  | naming (kind : String)
  | emitter (backend : Backend) (kind : String)

def Misuse.message : Misuse → String
  | .annotatedReference name what =>
    "reference to '" ++ name ++ "' cannot carry " ++ what ++ "; set it on the definition"
  | .pattern kind => "pattern can only be set on string nodes, not " ++ kind
  | .property name kind => "cannot add property '" ++ name ++ "' to " ++ kind
  | .parent kind => kind ++ " nodes cannot extend anything"
  | .additional kind => "additionalProperties cannot be set on " ++ kind
  | .naming kind => "only enum nodes can be real enums, not " ++ kind
  | .emitter backend kind =>
    backend.name ++ " emitter can only be set on raw nodes, not " ++ kind

structure Node where
  shape : Shape Node
  annotations : Annotations
  optionality : Optionality
  restriction : Restriction
  -- In the order in which it happened.
  misuse : List Misuse

namespace Node

def ofShape (shape : Shape Node) : Node := ⟨shape, .blank, .required, .unrestricted, []⟩

def kindName (n : Node) : String := n.shape.kindName

def isOptional (n : Node) : Bool :=
  match n.optionality with
  | .required => false
  | .optional _ => true

def default? (n : Node) : Option Json :=
  match n.optionality with
  | .required => none
  | .optional d => d

def object? (n : Node) : Option (ObjectShape Node) :=
  match n.shape with
  | .object o => some o
  | _ => none

def referenceName? (n : Node) : Option String :=
  match n.shape with
  | .reference name => some name
  | _ => none

end Node

def ObjectShape.property? (o : ObjectShape Node) (name : String) : Option (Property Node) :=
  o.properties.find? (·.name == name)

end TwinShape
