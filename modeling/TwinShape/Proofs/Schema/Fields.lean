import TwinShape.Proofs.Json.Settled
import TwinShape.Proofs.Node.Tree
import TwinShape.Schema.Emission

namespace TwinShape

def Shape.writtenNodes : Shape Node → List Node
  | .object o => o.properties.map (·.value) ++ o.additional.nodes
  | .array item => [item]
  | .union members => members
  | .linked _ schema => [schema]
  | _ => []

theorem Shape.child_of_written {s : Shape Node} (member : c ∈ s.writtenNodes) : c ∈ s.children := by
  cases s with
  | object o => exact List.mem_append_left _ member
  | linked declaration schema => exact List.mem_cons_of_mem _ member
  | array item | union members => exact member
  | _ => cases member

def Node.gather (own : Node → List α) (n : Node) : List α :=
  own n ++ n.shape.writtenNodes.attach.flatMap fun c => c.val.gather own
termination_by sizeOf n
decreasing_by exact Node.sizeOf_child (Shape.child_of_written c.property)

theorem Node.gather_eq (own : Node → List α) (n : Node) :
    n.gather own = own n ++ n.shape.writtenNodes.flatMap (Node.gather own) := by
  rw [Node.gather]
  congr 1
  induction n.shape.writtenNodes with
  | nil => rfl
  | cons c rest ih => simp [List.attach_cons, List.flatMap_map, ih]

def Node.references (n : Node) : List String := n.gather (·.referenceName?.toList)

def Node.ownPatterns (n : Node) : List String :=
  match n.shape with
  | .string => n.annotations.pattern.toList
  | _ => []

def Node.patterns (n : Node) : List String := n.gather Node.ownPatterns

theorem Node.references_eq (n : Node) :
    n.references = n.referenceName?.toList ++ n.shape.writtenNodes.flatMap Node.references := Node.gather_eq _ n

theorem Node.patterns_eq (n : Node) :
    n.patterns = n.ownPatterns ++ n.shape.writtenNodes.flatMap Node.patterns := Node.gather_eq _ n

def Shape.isExpressible : Shape Node → Bool
  | .raw .. | .imported .. => false
  | _ => true

inductive Node.Written (names : List String) : Node → Prop
  | intro (expressible : n.shape.isExpressible) (known : ∀ name, n.referenceName? = some name → name ∈ names)
      (inside : ∀ c ∈ n.shape.writtenNodes, Written names c) : Written names n

namespace Node.Written

theorem unnamed {n : Node} (expressible : n.shape.isExpressible) (none_ : n.referenceName? = none)
    (inside : ∀ c ∈ n.shape.writtenNodes, c.Written names) : n.Written names := by
  refine .intro expressible (fun name same => ?_) inside
  rw [none_] at same
  cases same

end Node.Written

def Node.heading (n : Node) : List (String × Json) :=
  (n.annotations.title.toList.map fun s => ("title", Json.string s)) ++
    n.annotations.description.toList.map fun s => ("description", Json.string s)

def Node.remarks (n : Node) : List (String × Json) :=
  (if n.annotations.examples.isEmpty then [] else [("examples", Json.array n.annotations.examples)]) ++
    n.default?.toList.map (fun value => ("default", value)) ++
    n.annotations.deprecated.toList.map fun _ => ("deprecated", .bool true)

def Node.annotated (n : Node) (fields : List (String × Json)) : List (String × Json) :=
  Table.setAll (Table.setAll n.heading fields) n.remarks

theorem Node.annotate_keywords (n : Node) (fields : List (String × Json)) :
    annotateSchema n (.keywords fields) = .object (n.annotated fields) := rfl

mutual
def Node.fields (c : Container) : Node → List (String × Json)
  | ⟨shape, annotations, optionality, restriction, misuse⟩ =>
    Node.annotated ⟨shape, annotations, optionality, restriction, misuse⟩ (shapeFields c annotations.pattern shape)

def shapeFields (c : Container) (pattern : Option String) : Shape Node → List (String × Json)
  | .object ⟨properties, additional, _⟩ => objectKeywords (propertyFields c properties) (additionalFields c additional)
  | .array item => [("type", .string "array"), ("items", .object (item.fields c))]
  | .union members => [("anyOf", .array (memberFields c members))]
  | .enumeration values _ => [("enum", .array (values.map Literal.toJson))]
  | .constant value => [("const", value.toJson)]
  | .string => ("type", .string "string") :: pattern.toList.map fun text => ("pattern", .string text)
  | .number => [("type", .string "number")]
  | .integer => [("type", .string "integer")]
  | .boolean => [("type", .string "boolean")]
  | .null => [("type", .string "null")]
  | .reference name => [("$ref", .string (c.pointer name))]
  | .raw .. | .imported .. => []
  | .linked _ schema => schema.fields c

def memberFields (c : Container) : List Node → List Json
  | [] => []
  | n :: rest => .object (n.fields c) :: memberFields c rest

def propertyFields (c : Container) : List (Property Node) → List (String × Bool × Json)
  | [] => []
  | ⟨name, value, _⟩ :: rest => (name, value.isOptional, .object (value.fields c)) :: propertyFields c rest

def additionalFields (c : Container) : Additional Node → Json
  | .forbidden => .bool false
  | .allowed => .bool true
  | .shape n => .object (n.fields c)
end

def Node.written (c : Container) (n : Node) : Json := .object (n.fields c)

theorem Node.fields_eq (c : Container) (n : Node) :
    n.fields c = n.annotated (shapeFields c n.annotations.pattern n.shape) := by
  obtain ⟨shape, annotations, optionality, restriction, misuse⟩ := n
  rw [Node.fields]

theorem memberFields_eq (c : Container) (members : List Node) :
    memberFields c members = members.map (Node.written c) := by
  induction members with
  | nil => rfl
  | cons n rest ih =>
    rw [memberFields, ih]
    rfl

theorem propertyFields_eq (c : Container) (properties : List (Property Node)) :
    propertyFields c properties = properties.map fun p => (p.name, p.value.isOptional, p.value.written c) := by
  induction properties with
  | nil => rfl
  | cons p rest ih =>
    obtain ⟨name, value, restriction⟩ := p
    rw [propertyFields, ih]
    rfl

end TwinShape
