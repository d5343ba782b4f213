import TwinShape.Projection.Basic

namespace TwinShape

inductive Container where
  | definitions | defs

namespace Container

def key : Container → String
  | .definitions => "definitions"
  | .defs => "$defs"

def pointer (c : Container) (name : String) : String := "#/" ++ c.key ++ "/" ++ name

end Container

structure SchemaOptions where
  -- The definition that the document as a whole stands for.
  root : Option String
  id : Option String
  title : Option String
  description : Option String
  container : Container

def SchemaOptions.plain : SchemaOptions := ⟨none, none, none, none, .definitions⟩

structure SchemaDraft where
  memory : Memory
  slots : Table (Option Json)

abbrev SchemaDrafting (α : Type) := Inquiry SchemaDraft Fault α

namespace SchemaDrafting

def ask {α : Type} (q : Question α) : SchemaDrafting α :=
  Inquiry.within SchemaDraft.memory (fun d m => { d with memory := m }) q

def fill (name : String) (schema : Option Json) : SchemaDrafting Unit :=
  Inquiry.learn fun d => { d with slots := d.slots.set name schema }

end SchemaDrafting

structure SchemaScope where
  container : Container
  -- Definitions whose schema is being written.
  writing : List String
  -- The definition that faults are blamed on.
  definition : String

inductive SchemaPart where
  | keywords (fields : List (String × Json))
  | whole (schema : Json)

namespace SchemaPart

def ofType (name : String) : SchemaPart := .keywords [("type", .string name)]

-- A document spreads its fields if it has any to spread.
def ofDocument : Json → SchemaPart
  | .object fields => .keywords fields
  | schema => .whole schema

end SchemaPart

def objectKeywords (properties : List (String × Bool × Json)) (additional : Json) :
    List (String × Json) :=
  let fields := Table.ofEntries (properties.map fun p => (p.1, p.2.2))
  let required := (properties.filter (!·.2.1)).map (·.1)
  [("type", .string "object")] ++
    (if fields.isEmpty then [] else [("properties", .object fields)]) ++
    (if required.isEmpty then [] else [("required", Json.strings required)]) ++
    [("additionalProperties", additional)]

-- The schema of a node from what its shape contributes: the texts come first, the examples,
-- the default and the deprecation last.
def annotateSchema (n : Node) : SchemaPart → Json
  | .whole schema => schema
  | .keywords fields =>
    let a := n.annotations
    let text (key : String) (value : Option String) := value.toList.map fun s => (key, Json.string s)
    let before := text "title" a.title ++ text "description" a.description
    let after := (if a.examples.isEmpty then [] else [("examples", Json.array a.examples)]) ++
      n.default?.toList.map (fun value => ("default", value)) ++
      a.deprecated.toList.map (fun _ => ("deprecated", .bool true))
    .object (Table.setAll (Table.setAll before fields) after)

mutual
-- The schema of a projected node. A definition that it refers to gets its schema first, unless
-- it has one already or is just being written.
def schemaOf (r : Registry) (s : SchemaScope) (n : Node) : SchemaDrafting Json :=
  match n with
  | ⟨shape, annotations, optionality, restriction, misuse⟩ => do
    let part ← schemaPartOf r s annotations.pattern shape
    pure (annotateSchema ⟨shape, annotations, optionality, restriction, misuse⟩ part)
termination_by (r.unvisited s.writing, sizeOf n, 0)

def schemaPartOf (r : Registry) (s : SchemaScope) (pattern : Option String) (shape : Shape Node) :
    SchemaDrafting SchemaPart :=
  match shape with
  | .object ⟨properties, additional, _⟩ => do
    let properties ← propertySchemas r s properties
    let additional ← additionalSchema r s additional
    pure (.keywords (objectKeywords properties additional))
  | .array item => do
    let schema ← schemaOf r s item
    pure (.keywords [("type", .string "array"), ("items", schema)])
  | .union members => do
    let schemas ← schemasOf r s members
    pure (.keywords [("anyOf", .array schemas)])
  | .enumeration values _ => pure (.keywords [("enum", .array (values.map Literal.toJson))])
  | .constant value => pure (.keywords [("const", value.toJson)])
  | .string =>
    pure (.keywords (("type", .string "string") ::
      pattern.toList.map fun text => ("pattern", .string text)))
  | .number => pure (.ofType "number")
  | .integer => pure (.ofType "integer")
  | .boolean => pure (.ofType "boolean")
  | .null => pure (.ofType "null")
  | .reference name => do
    if ← collect r s name then pure (.keywords [("$ref", .string (s.container.pointer name))])
    else Inquiry.fail (.absentInVariant s.definition name .external)
  | .raw _ schema =>
    match schema with
    | some document => pure (.ofDocument document.content)
    | none => Inquiry.fail (.missingRawBackend s.definition .schema)
  | .imported .. => Inquiry.fail (.unsupported s.definition "import" .schema)
  | .linked _ schema => do
    match ← schemaOf r s schema with
    | .object fields => pure (.keywords fields)
    | _ => pure (.keywords [])
termination_by (r.unvisited s.writing, sizeOf shape, 0)

def schemasOf (r : Registry) (s : SchemaScope) (nodes : List Node) : SchemaDrafting (List Json) :=
  match nodes with
  | [] => pure []
  | n :: rest => do
    let schema ← schemaOf r s n
    let schemas ← schemasOf r s rest
    pure (schema :: schemas)
termination_by (r.unvisited s.writing, sizeOf nodes, 0)

def propertySchemas (r : Registry) (s : SchemaScope) (properties : List (Property Node)) :
    SchemaDrafting (List (String × Bool × Json)) :=
  match properties with
  | [] => pure []
  | ⟨name, value, _⟩ :: rest => do
    let schema ← schemaOf r s value
    let schemas ← propertySchemas r s rest
    pure ((name, value.isOptional, schema) :: schemas)
termination_by (r.unvisited s.writing, sizeOf properties, 0)

def additionalSchema (r : Registry) (s : SchemaScope) (additional : Additional Node) :
    SchemaDrafting Json :=
  match additional with
  | .forbidden => pure (.bool false)
  | .allowed => pure (.bool true)
  | .shape n => schemaOf r s n
termination_by (r.unvisited s.writing, sizeOf additional, 0)

def collect (r : Registry) (s : SchemaScope) (name : String) : SchemaDrafting Bool := do
  let draft ← Inquiry.read
  if _taken : name ∈ s.writing ∨ draft.slots.has name then pure true
  else do
    let ⟨n, _found⟩ ← SchemaDrafting.ask (r.resolve name)
    match ← SchemaDrafting.ask (r.project name n .external) with
    | none => pure false
    | some n => do
      SchemaDrafting.fill name none
      let schema ← schemaOf r { s with writing := name :: s.writing, definition := name } n
      SchemaDrafting.fill name (some schema)
      pure true
termination_by (r.unvisited s.writing, 0, 0)
decreasing_by
  exact .left _ _ (r.unvisited_cons_lt (r.mem_names_of_find? _found) (fun busy => _taken (.inl busy)))
end

namespace Registry

def collectAll (r : Registry) (c : Container) : List String → SchemaDrafting Unit
  | [] => pure ()
  | name :: rest => do
    let _ ← collect r ⟨c, [], ""⟩ name
    collectAll r c rest

def collectRoot (r : Registry) (c : Container) : Option String → SchemaDrafting Unit
  | none => pure ()
  | some name => do
    if ← collect r ⟨c, [], ""⟩ name then pure ()
    else Inquiry.fail (.absentInVariant "schema root" name .external)

def draft07 : String := "http://json-schema.org/draft-07/schema#"

def schemaDocument (options : SchemaOptions) (container : List (String × Json)) : Json :=
  let text (key : String) (value : Option String) := value.toList.map fun s => (key, Json.string s)
  .object ([("$schema", .string draft07)] ++ text "$id" options.id ++ text "title" options.title ++
    text "description" options.description ++
    text "$ref" (options.root.map options.container.pointer) ++
    [(options.container.key, .object container)])

def schemaFor (r : Registry) (names : List String) (options : SchemaOptions) : Question Json :=
  fun m =>
    let drafting : SchemaDrafting Unit := do
      r.collectAll options.container names
      r.collectRoot options.container options.root
    match drafting ⟨m, []⟩ with
    | (.ok (), d) =>
      let container := d.slots.filterMap fun slot => slot.2.map fun schema => (slot.1, schema)
      (.ok (schemaDocument options container), d.memory)
    | (.error fault, d) => (.error fault, d.memory)

def schema (r : Registry) (options : SchemaOptions) : Question Json := r.schemaFor r.names options

def nodeSchema (r : Registry) (definition : String) (n : Node) (c : Container) :
    Question (Option Json) := fun m =>
  match r.project definition n .external m with
  | (.error fault, m) => (.error fault, m)
  | (.ok none, m) => (.ok none, m)
  | (.ok (some n), m) =>
    match schemaOf r ⟨c, [], definition⟩ n ⟨m, []⟩ with
    | (.ok schema, d) => (.ok (some schema), d.memory)
    | (.error fault, d) => (.error fault, d.memory)

end Registry
end TwinShape
