import TwinShape.Proofs.InPlace.Variation
import TwinShape.Proofs.Schema.Simulation

namespace TwinShape
namespace InPlace

-- A schema document as far as it is written. What is being written shows by its empty place only.
structure Page where
  cells : Cells
  slots : Table (Option Json)

abbrev Collecting (α : Type) := Attempt Page Fault α

namespace Page

def ask (x : Probing α) : Collecting α := Descent.within Page.cells (fun p c => { p with cells := c }) x

def fill (name : String) (schema : Option Json) : Collecting Unit :=
  Attempt.learn fun p => { p with slots := p.slots.set name schema }

def alone (x : Collecting α) : Probing α := fun c => (x ⟨c, []⟩).map fun (answer, p) => (answer, p.cells)

end Page

section
  -- How a definition is collected that has to be entered.
variable (enter : String → Collecting Bool) (container : Container)
  -- The definition that faults are blamed on.
  (definition : String)

mutual
def writeSchema : Node → Collecting Json
  | ⟨shape, annotations, optionality, restriction, misuse⟩ => do
    let part ← writePart annotations.pattern shape
    pure (annotateSchema ⟨shape, annotations, optionality, restriction, misuse⟩ part)

def writePart (pattern : Option String) : Shape Node → Collecting SchemaPart
  | .object ⟨properties, additional, _⟩ => do
    let properties ← writeProperties properties
    let additional ← writeAdditional additional
    pure (.keywords (objectKeywords properties additional))
  | .array item => do
    let schema ← writeSchema item
    pure (.keywords [("type", .string "array"), ("items", schema)])
  | .union members => do
    let schemas ← writeSchemas members
    pure (.keywords [("anyOf", .array schemas)])
  | .enumeration values _ => pure (.keywords [("enum", .array (values.map Literal.toJson))])
  | .constant value => pure (.keywords [("const", value.toJson)])
  | .string =>
    pure (.keywords (("type", .string "string") ::
      pattern.toList.map fun text => ("pattern", .string text)))
  | .number => pure (.ofType "number")
  | .integer => pure (.ofType "integer")
  | .boolean => pure (.ofType "boolean")
  | .null => pure (.ofType "null")
  | .reference name => do
    if ← enter name then pure (.keywords [("$ref", .string (container.pointer name))])
    else Attempt.fail (.absentInVariant definition name .external)
  | .raw _ schema =>
    match schema with
    | some document => pure (.ofDocument document.content)
    | none => Attempt.fail (.missingRawBackend definition .schema)
  | .imported .. => Attempt.fail (.unsupported definition "import" .schema)
  | .linked _ schema => do
    match ← writeSchema schema with
    | .object fields => pure (.keywords fields)
    | _ => pure (.keywords [])

def writeSchemas : List Node → Collecting (List Json)
  | [] => pure []
  | n :: rest => do
    let schema ← writeSchema n
    let schemas ← writeSchemas rest
    pure (schema :: schemas)

def writeProperties : List (Property Node) → Collecting (List (String × Bool × Json))
  | [] => pure []
  | ⟨name, value, _⟩ :: rest => do
    let schema ← writeSchema value
    let schemas ← writeProperties rest
    pure ((name, value.isOptional, schema) :: schemas)

def writeAdditional : Additional Node → Collecting Json
  | .forbidden => pure (.bool false)
  | .allowed => pure (.bool true)
  | .shape n => writeSchema n
end
end

def ensureCollected (r : Registry) (container : Container) : Nat → String → Collecting Bool
  | 0, _ => Descent.giveUp
  | depth + 1, name => do
    let page ← Attempt.read
    if page.slots.has name then pure true
    else do
      let target ← Page.ask (ask (r.resolve name))
      match ← Page.ask (descend r .external depth (.start name) target.val) with
      | none => pure false
      | some n => do
        Page.fill name none
        let schema ← writeSchema (ensureCollected r container depth) container name n
        Page.fill name (some schema)
        pure true

def ensureAllCollected (r : Registry) (container : Container) (depth : Nat) : List String → Collecting Unit
  | [] => pure ()
  | name :: rest => do
    let _ ← ensureCollected r container depth name
    ensureAllCollected r container depth rest

def ensureRoot (r : Registry) (container : Container) (depth : Nat) : Option String → Collecting Unit
  | none => pure ()
  | some name => do
    if ← ensureCollected r container depth name then pure ()
    else Attempt.fail (.absentInVariant "schema root" name .external)

def schemaFor (r : Registry) (depth : Nat) (names : List String) (options : SchemaOptions) : Probing Json :=
  Page.alone do
    ensureAllCollected r options.container depth names
    ensureRoot r options.container depth options.root
    let page ← Attempt.read
    pure (Registry.schemaDocument options (filledSlots page.slots))

-- The definition is not begun itself, so a reference to it enters it.
def nodeSchema (r : Registry) (depth : Nat) (definition : String) (n : Node) (container : Container) :
    Probing (Option Json) := do
  match ← descend r .external depth (.start definition) n with
  | none => pure none
  | some n => do
    let schema ← Page.alone (writeSchema (ensureCollected r container depth) container definition n)
    pure (some schema)

-- A page is where a draft is, and all that is being written has a place.
structure Page.Matches (writing : List String) (d : SchemaDraft) (p : Page) : Prop where
  rest : Rest [] d.memory p.cells
  slots : p.slots = d.slots
  begun : ∀ name ∈ writing, d.slots.has name

section
variable {r : Registry} {s : SchemaScope} {enter : String → Collecting Bool} {depth : Nat} {writing : List String}

abbrev Collects (writing : List String) (x : SchemaDrafting α) (y : Collecting α) : Prop := Mirrors (Page.Matches writing) x y

theorem ask_collects {q : Question α} {x : Probing α} (both : Mirrors (Rest []) q x) :
    Collects writing (SchemaDrafting.ask q) (Page.ask x) := by
  intro d p held
  obtain ⟨c, reached, rest⟩ := both d.memory p.cells held.rest
  refine ⟨{ p with cells := c }, ?_, rest, held.slots, held.begun⟩
  unfold Page.ask Descent.within SchemaDrafting.ask Inquiry.within
  rw [reached]
  rfl

theorem Page.Matches.filled {d : SchemaDraft} {p : Page} (held : Page.Matches writing d p) (name : String)
    (schema : Option Json) :
    Page.Matches (name :: writing) { d with slots := d.slots.set name schema } { p with slots := p.slots.set name schema } := by
  refine ⟨held.rest, congrArg (fun slots => slots.set name schema) held.slots, ?_⟩
  intro other member
  exact Table.has_set _ _ _ _ ((List.mem_cons.1 member).imp_right (held.begun other))

theorem Page.Matches.fewer {d : SchemaDraft} {p : Page} {name : String} (held : Page.Matches (name :: writing) d p) :
    Page.Matches writing d p :=
  ⟨held.rest, held.slots, fun other member => held.begun other (List.mem_cons_of_mem _ member)⟩

theorem fill_collects (name : String) (schema : Option Json) :
    Collects writing (SchemaDrafting.fill name schema) (Page.fill name schema) :=
  fun _ _ held => ⟨_, rfl, (held.filled name schema).fewer⟩

theorem begin_collects {name : String} {x : SchemaDrafting α} {y : Collecting α}
    (both : Collects (name :: writing) x y) :
    Collects writing (SchemaDrafting.fill name none >>= fun _ => x) (Page.fill name none >>= fun _ => y) := by
  intro d p held
  obtain ⟨p', reached, held'⟩ := both _ _ (held.filled name none)
  exact ⟨p', reached, held'.fewer⟩

theorem schemas_collect {ns : List Node}
    (each : ∀ n ∈ ns, Collects writing (schemaOf r s n) (writeSchema enter s.container s.definition n)) :
    Collects writing (schemasOf r s ns) (writeSchemas enter s.container s.definition ns) := by
  induction ns with
  | nil =>
    rw [schemasOf, writeSchemas]
    exact .pure []
  | cons n rest ih =>
    rw [schemasOf, writeSchemas]
    refine .bind (each n List.mem_cons_self) fun schema => ?_
    exact .bind (ih fun m member => each m (List.mem_cons_of_mem _ member)) fun schemas => .pure _

theorem properties_collect {ps : List (Property Node)}
    (each : ∀ n ∈ ps.map (·.value), Collects writing (schemaOf r s n) (writeSchema enter s.container s.definition n)) :
    Collects writing (propertySchemas r s ps) (writeProperties enter s.container s.definition ps) := by
  induction ps with
  | nil =>
    rw [propertySchemas, writeProperties]
    exact .pure []
  | cons p rest ih =>
    rw [propertySchemas, writeProperties]
    refine .bind (each p.value List.mem_cons_self) fun schema => ?_
    exact .bind (ih fun m member => each m (List.mem_cons_of_mem _ member)) fun schemas => .pure _

theorem additional_collects {additional : Additional Node}
    (each : ∀ n ∈ additional.nodes, Collects writing (schemaOf r s n) (writeSchema enter s.container s.definition n)) :
    Collects writing (additionalSchema r s additional) (writeAdditional enter s.container s.definition additional) := by
  cases additional with
  | shape n =>
    rw [additionalSchema, writeAdditional]
    exact each n List.mem_cons_self
  | _ =>
    rw [additionalSchema, writeAdditional]
    exact .pure _

theorem schema_collects (entered : ∀ name, Collects writing (collect r s name) (enter name)) (n : Node) :
    Collects writing (schemaOf r s n) (writeSchema enter s.container s.definition n) := by
  induction n using Node.tree_induction with
  | node n each =>
    obtain ⟨shape, annotations, optionality, restriction, misuse⟩ := n
    change ∀ c ∈ shape.children, _ at each
    rw [schemaOf, writeSchema]
    refine .bind ?_ fun part => .pure _
    cases shape with
    | object o =>
      obtain ⟨properties, additional, parents⟩ := o
      have own := fun c member => each c (List.mem_append_left _ member)
      rw [schemaPartOf, writePart]
      refine .bind (properties_collect fun c member => own c (List.mem_append_left _ member)) fun properties => ?_
      exact .bind (additional_collects fun c member => own c (List.mem_append_right _ member)) fun additional => .pure _
    | array item =>
      rw [schemaPartOf, writePart]
      exact .bind (each item List.mem_cons_self) fun schema => .pure _
    | union members =>
      rw [schemaPartOf, writePart]
      exact .bind (schemas_collect each) fun schemas => .pure _
    | reference name =>
      rw [schemaPartOf, writePart]
      refine .bind (entered name) fun found => ?_
      cases found
      · exact .fail _
      · exact .pure _
    | raw declaration schema =>
      cases schema <;> rw [schemaPartOf, writePart]
      · exact .fail _
      · exact .pure _
    | imported name module =>
      rw [schemaPartOf, writePart]
      exact .fail _
    | linked declaration schema =>
      rw [schemaPartOf, writePart]
      refine .bind (each schema (List.mem_cons_of_mem _ List.mem_cons_self)) fun written => ?_
      cases written <;> exact .pure _
    | _ =>
      rw [schemaPartOf, writePart]
      exact .pure _

-- Each schema that is begun leaves fewer to begin.
theorem collect_collects (depth : Nat) (enough : r.unvisited s.writing + projectionDepth r < depth) (name : String) :
    Collects s.writing (collect r s name) (ensureCollected r s.container depth name) := by
  induction depth generalizing s name with
  | zero => exact absurd enough (Nat.not_lt_zero _)
  | succ depth ih =>
    rw [collect, ensureCollected]
    refine .inspect fun d page held => ?_
    -- Whatever is being written has a place.
    have taken_iff : name ∈ s.writing ∨ d.slots.has name ↔ page.slots.has name := by
      rw [held.slots]
      exact ⟨fun taken => taken.elim (held.begun _) id, .inr⟩
    by_cases taken : page.slots.has name
    · rw [dif_pos (taken_iff.2 taken), if_pos taken]
      exact .pure _
    · rw [dif_neg (mt taken_iff.1 taken), if_neg taken]
      refine .bind (ask_collects (ask_rests _)) fun target => ?_
      have room : projectionDepth r ≤ depth := by omega
      refine .bind (ask_collects (project_rests room name target.val .external)) fun projected => ?_
      cases projected with
      | none => exact .pure false
      | some n =>
        have fewer := r.unvisited_cons_lt (r.mem_names_of_find? target.property) fun busy => taken (taken_iff.1 (.inl busy))
        have below := fun other => ih (s := { s with writing := name :: s.writing, definition := name })
          (by dsimp only; omega) other
        refine begin_collects (.bind (schema_collects below n) fun schema => ?_)
        exact .bind (fill_collects _ _) fun _ => .pure _

theorem started_collects (enough : r.definitions.length + projectionDepth r < depth) (container : Container)
    (definition name : String) : Collects [] (collect r ⟨container, [], definition⟩ name) (ensureCollected r container depth name) :=
  collect_collects (s := ⟨container, [], definition⟩) depth
    (Nat.lt_of_le_of_lt (Nat.add_le_add_right (unvisited_le r []) _) enough) name

theorem collectAll_collects (enough : r.definitions.length + projectionDepth r < depth) (container : Container)
    (names : List String) : Collects [] (r.collectAll container names) (ensureAllCollected r container depth names) := by
  induction names with
  | nil => exact .pure ()
  | cons name rest ih => exact .bind (started_collects enough container "" name) fun _ => ih

theorem collectRoot_collects (enough : r.definitions.length + projectionDepth r < depth) (container : Container)
    (root : Option String) : Collects [] (r.collectRoot container root) (ensureRoot r container depth root) := by
  cases root with
  | none => exact .pure ()
  | some name =>
    refine .bind (started_collects enough container "" name) fun found => ?_
    cases found
    · exact .fail _
    · exact .pure ()

theorem alone_rests {x : SchemaDrafting α} {y : Collecting α} (both : Collects [] x y) :
    Mirrors (Rest []) x.alone (Page.alone y) := by
  intro m c rest
  obtain ⟨p, reached, held⟩ := both ⟨m, []⟩ ⟨c, []⟩ ⟨rest, rfl, nofun⟩
  refine ⟨p.cells, ?_, held.rest⟩
  unfold Page.alone
  rw [reached]
  rfl

theorem schema_rests (enough : r.definitions.length + projectionDepth r < depth) (names : List String)
    (options : SchemaOptions) :
    Mirrors (Rest []) (r.schemaFor names options) (schemaFor r depth names options) := by
  rw [schemaFor_eq]
  refine alone_rests (.bind (collectAll_collects enough options.container names) fun _ => ?_)
  refine .bind (collectRoot_collects enough options.container options.root) fun _ => ?_
  refine .inspect fun d page held => ?_
  rw [held.slots]
  exact .pure _

theorem nodeSchema_rests (enough : r.definitions.length + projectionDepth r < depth) (definition : String) (n : Node)
    (container : Container) :
    Mirrors (Rest []) (r.nodeSchema definition n container) (nodeSchema r depth definition n container) := by
  have room : projectionDepth r ≤ depth := by omega
  rw [nodeSchema_eq]
  refine .bind (project_rests room definition n .external) fun projected => ?_
  cases projected with
  | none => exact .pure none
  | some n =>
    refine .bind (alone_rests ?_) fun schema => .pure _
    exact schema_collects (s := ⟨container, [], definition⟩) (started_collects enough container definition) n

end
end InPlace
end TwinShape
