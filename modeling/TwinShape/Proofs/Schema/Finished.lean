import TwinShape.Proofs.Schema.Keywords

namespace TwinShape

mutual
-- The schema of a node, once every definition that it refers to has its own.
def Node.schema (c : Container) : Node → Json
  | ⟨shape, annotations, optionality, restriction, misuse⟩ =>
    annotateSchema ⟨shape, annotations, optionality, restriction, misuse⟩ (schemaPart c annotations.pattern shape)

def schemaPart (c : Container) (pattern : Option String) : Shape Node → SchemaPart
  | .object ⟨properties, additional, _⟩ =>
    .keywords (objectKeywords (finishedProperties c properties) (finishedAdditional c additional))
  | .array item => .keywords [("type", .string "array"), ("items", item.schema c)]
  | .union members => .keywords [("anyOf", .array (finishedMembers c members))]
  | .enumeration values _ => .keywords [("enum", .array (values.map Literal.toJson))]
  | .constant value => .keywords [("const", value.toJson)]
  | .string => .keywords (("type", .string "string") :: pattern.toList.map fun text => ("pattern", .string text))
  | .number => .ofType "number"
  | .integer => .ofType "integer"
  | .boolean => .ofType "boolean"
  | .null => .ofType "null"
  | .reference name => .keywords [("$ref", .string (c.pointer name))]
  | .raw _ (some document) => .ofDocument document.content
  | .raw _ none | .imported .. => .keywords []
  | .linked _ schema =>
    match schema.schema c with
    | .object fields => .keywords fields
    | _ => .keywords []

def finishedMembers (c : Container) : List Node → List Json
  | [] => []
  | n :: rest => n.schema c :: finishedMembers c rest

def finishedProperties (c : Container) : List (Property Node) → List (String × Bool × Json)
  | [] => []
  | ⟨name, value, _⟩ :: rest => (name, value.isOptional, value.schema c) :: finishedProperties c rest

def finishedAdditional (c : Container) : Additional Node → Json
  | .forbidden => .bool false
  | .allowed => .bool true
  | .shape n => n.schema c
end

theorem Node.schema_eq (c : Container) (n : Node) :
    n.schema c = annotateSchema n (schemaPart c n.annotations.pattern n.shape) := by
  obtain ⟨shape, annotations, optionality, restriction, misuse⟩ := n
  rw [Node.schema]

theorem finishedMembers_eq (c : Container) (members : List Node) :
    finishedMembers c members = members.map (Node.schema c) := by
  induction members with
  | nil => rfl
  | cons n rest ih => rw [finishedMembers, ih, List.map_cons]

theorem finishedProperties_eq (c : Container) (properties : List (Property Node)) :
    finishedProperties c properties = properties.map fun p => (p.name, p.value.isOptional, p.value.schema c) := by
  induction properties with
  | nil => rfl
  | cons p rest ih =>
    obtain ⟨name, value, restriction⟩ := p
    rw [finishedProperties, ih, List.map_cons]

def Shape.isWritable : Shape Node → Bool
  | .raw _ none | .imported .. => false
  | _ => true

theorem Shape.writable_of_expressible {s : Shape Node} (expressible : s.isExpressible) : s.isWritable := by
  cases s <;> first | rfl | cases expressible

inductive Node.Emits (names : List String) : Node → Prop
  | intro (writable : n.shape.isWritable) (known : ∀ name, n.referenceName? = some name → name ∈ names)
      (inside : ∀ c ∈ n.shape.writtenNodes, Emits names c) : Emits names n

inductive Node.WrittenPart : Node → Node → Prop
  | self : WrittenPart n n
  | inside (child : c ∈ n.shape.writtenNodes) (part : WrittenPart x c) : WrittenPart x n

namespace Node.Emits

theorem made {names : List String} {n : Node} (writable : n.shape.isWritable) (unnamed : n.referenceName? = none)
    (inside : ∀ c ∈ n.shape.writtenNodes, Node.Emits names c) : n.Emits names := by
  refine .intro writable (fun name named => ?_) inside
  rw [unnamed] at named
  cases named

theorem leaf {names : List String} {n : Node} (writable : n.shape.isWritable) (unnamed : n.referenceName? = none)
    (bare : n.shape.writtenNodes = []) : n.Emits names := by
  refine .made writable unnamed fun c child => ?_
  rw [bare] at child
  cases child

theorem mono {names more : List String} (emits : Node.Emits names n) (le : names ⊆ more) : n.Emits more := by
  induction emits with
  | intro writable known _ ih => exact .intro writable (fun name named => le (known name named)) ih

theorem part {names : List String} {x n : Node} (emits : n.Emits names) (part : x.WrittenPart n) : x.Emits names := by
  induction part with
  | self => exact emits
  | inside child _ ih =>
    cases emits with
    | intro _ _ inside => exact ih (inside _ child)

theorem written {names : List String} (emits : Node.Emits names n)
    (plain : n.Each fun x => ∀ declaration schema, x.shape ≠ .raw declaration schema) : n.Written names := by
  induction emits with
  | @intro n writable known _ ih =>
    have ⟨here, below⟩ := Node.each_iff.1 plain
    refine .intro ?_ known fun c child => ih c child (below c (Shape.child_of_written child))
    cases shape : n.shape with
    | raw declaration schema => exact absurd shape (here _ _)
    | imported name module =>
      rw [shape] at writable
      exact writable
    | _ => rfl

end Node.Emits

theorem Node.schema_eq_written (c : Container) {n : Node}
    (plain : n.Each fun x => ∀ declaration schema, x.shape ≠ .raw declaration schema) : n.schema c = n.written c := by
  induction n using Node.tree_induction with
  | node n ih =>
    have ⟨here, below⟩ := Node.each_iff.1 plain
    have each : ∀ m ∈ n.shape.writtenNodes, m.schema c = m.written c := fun m member =>
      ih m (Shape.child_of_written member) (below m (Shape.child_of_written member))
    rw [Node.schema_eq, Node.written, Node.fields_eq, ← Node.annotate_keywords]
    congr 1
    generalize n.annotations.pattern = pattern
    cases shape : n.shape with
    | object o =>
      obtain ⟨properties, additional, parents⟩ := o
      rw [shape] at each
      rw [schemaPart, shapeFields, finishedProperties_eq, propertyFields_eq]
      have values : (properties.map fun p => (p.name, p.value.isOptional, p.value.schema c)) =
          properties.map fun p => (p.name, p.value.isOptional, p.value.written c) :=
        List.map_congr_left fun p member => by
          rw [each p.value (List.mem_append_left _ (List.mem_map_of_mem member))]
      have others : finishedAdditional c additional = additionalFields c additional := by
        cases additional with
        | forbidden | allowed => rfl
        | shape a => exact each a (List.mem_append_right _ List.mem_cons_self)
      rw [values, others]
    | array item =>
      rw [shape] at each
      rw [schemaPart, shapeFields, each item List.mem_cons_self]
      rfl
    | union members =>
      rw [shape] at each
      have same : members.map (Node.schema c) = members.map (Node.written c) := List.map_congr_left each
      rw [schemaPart, shapeFields, finishedMembers_eq, memberFields_eq, same]
    | linked declaration schema =>
      rw [shape] at each
      rw [schemaPart, each schema List.mem_cons_self, shapeFields]
      rfl
    | raw declaration schema => exact absurd shape (here _ _)
    | _ => rfl

theorem Node.schema_reference (c : Container) {n : Node} (named : n.referenceName? = some name) :
    ∃ fields, n.schema c = .object fields ∧ Table.get? fields "$ref" = some (.string (c.pointer name)) := by
  have shaped : n.shape = .reference name := by
    unfold Node.referenceName? at named
    split at named
    · cases named
      assumption
    · cases named
  have wraps : Wraps (n.annotated [("$ref", .string (c.pointer name))]) [("$ref", .string (c.pointer name))] :=
    Node.annotated_wraps n (.self (by simp [Table.keys]) (List.forall_mem_singleton.2 rfl))
  refine ⟨n.annotated [("$ref", .string (c.pointer name))], ?_, ?_⟩
  · rw [Node.schema_eq, shaped, schemaPart, Node.annotate_keywords]
  · rw [← Table.get?_filter (p := isEssential) rfl, wraps.essential]
    rfl

end TwinShape
