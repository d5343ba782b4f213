import TwinShape.Proofs.Projection.Simulation
import TwinShape.Schema.Emission

namespace TwinShape

-- Shapes that are written alike if the nodes inside of them are. Only the schema side of
-- a linked node is written.
inductive WrittenAlike (R : Node → Node → Prop) : Shape Node → Shape Node → Prop
  | object (properties : List.Forall₂ (fun p q => p.name = q.name ∧ R p.value q.value) ps qs)
      (additional : Additional.Both R a b) : WrittenAlike R (.object ⟨ps, a, ms⟩) (.object ⟨qs, b, ns⟩)
  | array (item : R m n) : WrittenAlike R (.array m) (.array n)
  | union (members : List.Forall₂ R ms ns) : WrittenAlike R (.union ms) (.union ns)
  | enumeration : WrittenAlike R (.enumeration values naming) (.enumeration values naming')
  | raw {d d' : Option (Marked String)} {s t : Option (Marked Json)}
      (same : s.map (·.content) = t.map (·.content)) : WrittenAlike R (.raw d s) (.raw d' t)
  | linked (schema : R m n) : WrittenAlike R (.linked d m) (.linked d' n)
  | reference (name : String) : WrittenAlike R (.reference name) (.reference name)
  | equal (leaf : s.isLeaf) : WrittenAlike R s s

theorem WrittenAlike.self (s : Shape Node) : WrittenAlike Eq s s := by
  cases s with
  | object o =>
    refine .object (List.forall₂_same.2 fun _ _ => ⟨rfl, rfl⟩) ?_
    cases o.additional with
    | forbidden => exact .forbidden
    | allowed => exact .allowed
    | shape n => exact .shape rfl
  | array item => exact .array rfl
  | union members => exact .union (List.forall₂_same.2 fun _ _ => rfl)
  | reference name => exact .reference name
  | linked declaration schema => exact .linked rfl
  | _ => exact .equal rfl

structure Node.SameTexts (m n : Node) : Prop where
  title : m.annotations.title = n.annotations.title
  description : m.annotations.description = n.annotations.description
  examples : m.annotations.examples = n.annotations.examples
  deprecated : m.annotations.deprecated = n.annotations.deprecated
  pattern : m.annotations.pattern = n.annotations.pattern
  optionality : m.optionality = n.optionality

theorem Node.SameTexts.annotate {m n : Node} (same : m.SameTexts n) (part : SchemaPart) :
    annotateSchema m part = annotateSchema n part := by
  cases part with
  | whole schema => rfl
  | keywords fields =>
    unfold annotateSchema Node.default?
    dsimp only
    rw [same.title, same.description, same.examples, same.deprecated, same.optionality]

-- Two runs of schema emission on related definitions.
structure SchemaSimulation (r₁ r₂ : Registry) where
  strict : Prop
  source : Node → Node → Prop
  result : Node → Node → Prop
  memory : Memory → Memory → Prop
  shapes : result m n → WrittenAlike result m.shape n.shape
  texts : result m n → m.SameTexts n
  resolve : Alongside strict memory (fun a b => source a.val b.val) (r₁.resolve name) (r₂.resolve name)
  project : source m n →
    Alongside strict memory (Option.Rel result) (r₁.project definition m .external) (r₂.project definition n .external)

theorem schemaOf_eq (r : Registry) (s : SchemaScope) (n : Node) :
    schemaOf r s n = schemaPartOf r s n.annotations.pattern n.shape >>= fun part => pure (annotateSchema n part) := by
  obtain ⟨shape, annotations, optionality, restriction, misuse⟩ := n
  rw [schemaOf]

theorem collect_eq (r : Registry) (s : SchemaScope) (name : String) (d : SchemaDraft) :
    collect r s name d =
      if name ∈ s.writing ∨ d.slots.has name then (.ok true, d)
      else (SchemaDrafting.ask (r.resolve name) >>= fun target =>
        SchemaDrafting.ask (r.project name target.val .external) >>= fun projected =>
          match projected with
          | none => pure false
          | some n => do
            SchemaDrafting.fill name none
            let schema ← schemaOf r { s with writing := name :: s.writing, definition := name } n
            SchemaDrafting.fill name (some schema)
            pure true) d := by
  rw [collect]
  change (if _taken : name ∈ s.writing ∨ d.slots.has name then _ else _ : SchemaDrafting Bool) d = _
  by_cases taken : name ∈ s.writing ∨ d.slots.has name
  · rw [if_pos taken]
    exact congrFun (dif_pos taken) d
  · rw [if_neg taken]
    exact congrFun (dif_neg taken) d

def SchemaDrafting.alone (x : SchemaDrafting α) : Question α := fun m =>
  ((x ⟨m, []⟩).1, (x ⟨m, []⟩).2.memory)

def filledSlots (slots : Table (Option Json)) : List (String × Json) :=
  slots.filterMap fun slot => slot.2.map fun schema => (slot.1, schema)

theorem schemaFor_eq (r : Registry) (names : List String) (options : SchemaOptions) :
    r.schemaFor names options = SchemaDrafting.alone (r.collectAll options.container names >>= fun _ =>
      r.collectRoot options.container options.root >>= fun _ =>
        Inquiry.read >>= fun d => pure (Registry.schemaDocument options (filledSlots d.slots))) := by
  funext m
  unfold Registry.schemaFor SchemaDrafting.alone
  dsimp only [Bind.bind, Inquiry.bind]
  rcases r.collectAll options.container names ⟨m, []⟩ with ⟨e | a, d⟩
  · rfl
  · dsimp only
    rcases r.collectRoot options.container options.root d with ⟨e | a, d'⟩ <;> rfl

theorem nodeSchema_eq (r : Registry) (definition : String) (n : Node) (c : Container) :
    r.nodeSchema definition n c = r.project definition n .external >>= fun projected =>
      match projected with
      | none => pure none
      | some n => SchemaDrafting.alone (schemaOf r ⟨c, [], definition⟩ n) >>= fun schema => pure (some schema) := by
  funext m
  unfold Registry.nodeSchema
  dsimp only [Bind.bind, Inquiry.bind]
  rcases r.project definition n .external m with ⟨e | (_ | n), m'⟩
  · rfl
  · rfl
  · dsimp only [Inquiry.bind, SchemaDrafting.alone]
    rcases schemaOf r ⟨c, [], definition⟩ n ⟨m', []⟩ with ⟨e | a, d⟩ <;> rfl

namespace SchemaSimulation
variable {r₁ r₂ : Registry} (sim : SchemaSimulation r₁ r₂)

def Draft (d e : SchemaDraft) : Prop := sim.memory d.memory e.memory ∧ d.slots = e.slots

abbrev Runs (P : α → β → Prop) (x : SchemaDrafting α) (y : SchemaDrafting β) : Prop :=
  Alongside sim.strict sim.Draft P x y

variable {sim} {s : SchemaScope}

theorem ask_run {P : α → β → Prop} {x : Question α} {y : Question β}
    (both : Alongside sim.strict sim.memory P x y) :
    sim.Runs P (SchemaDrafting.ask x) (SchemaDrafting.ask y) := by
  intro d e seen
  have agree := both d.memory e.memory seen.1
  unfold SchemaDrafting.ask Inquiry.within
  dsimp only
  rcases hx : x d.memory with ⟨a | a, m⟩ <;> rcases hy : y e.memory with ⟨b | b, n⟩ <;>
    rw [hx, hy] at agree
  · exact fun exact_ => ⟨(agree exact_).1, (agree exact_).2, seen.2⟩
  · exact agree
  · exact agree
  · exact ⟨agree.1, agree.2, seen.2⟩

theorem fill_run (name : String) (schema : Option Json) :
    sim.Runs (fun _ _ => True) (SchemaDrafting.fill name schema) (SchemaDrafting.fill name schema) :=
  fun _ _ seen => ⟨trivial, seen.1, congrArg (fun slots => slots.set name schema) seen.2⟩

theorem schemas_run {ms ns : List Node} (related : List.Forall₂ sim.result ms ns)
    (each : ∀ m ∈ ms, ∀ n, sim.result m n → sim.Runs Eq (schemaOf r₁ s m) (schemaOf r₂ s n)) :
    sim.Runs Eq (schemasOf r₁ s ms) (schemasOf r₂ s ns) := by
  induction related with
  | nil =>
    rw [schemasOf, schemasOf]
    exact .pure rfl
  | @cons m n ms ns head rest ih =>
    rw [schemasOf, schemasOf]
    refine .bind (each m List.mem_cons_self n head) ?_
    rintro schema _ rfl
    refine .bind (ih fun m member => each m (List.mem_cons_of_mem _ member)) ?_
    rintro schemas _ rfl
    exact .pure rfl

theorem properties_run {ps qs : List (Property Node)}
    (related : List.Forall₂ (fun p q => p.name = q.name ∧ sim.result p.value q.value) ps qs)
    (each : ∀ m ∈ ps.map (·.value), ∀ n, sim.result m n → sim.Runs Eq (schemaOf r₁ s m) (schemaOf r₂ s n)) :
    sim.Runs Eq (propertySchemas r₁ s ps) (propertySchemas r₂ s qs) := by
  induction related with
  | nil =>
    rw [propertySchemas, propertySchemas]
    exact .pure rfl
  | @cons p q ps qs head rest ih =>
    have values := each _ List.mem_cons_self _ head.2
    have others := ih fun m member => each m (List.mem_cons_of_mem _ member)
    obtain ⟨name, value, restriction⟩ := p
    obtain ⟨name', value', restriction'⟩ := q
    obtain ⟨rfl, nodes⟩ := head
    have optional : value.isOptional = value'.isOptional := by
      unfold Node.isOptional
      rw [(sim.texts nodes).optionality]
    rw [propertySchemas, propertySchemas]
    refine .bind values ?_
    rintro schema _ rfl
    refine .bind others ?_
    rintro schemas _ rfl
    exact .pure (congrArg (fun b => (name, b, schema) :: schemas) optional)

theorem additional_run {a b : Additional Node} (related : Additional.Both sim.result a b)
    (each : ∀ m ∈ a.nodes, ∀ n, sim.result m n → sim.Runs Eq (schemaOf r₁ s m) (schemaOf r₂ s n)) :
    sim.Runs Eq (additionalSchema r₁ s a) (additionalSchema r₂ s b) := by
  cases related with
  | forbidden =>
    rw [additionalSchema, additionalSchema]
    exact .pure rfl
  | allowed =>
    rw [additionalSchema, additionalSchema]
    exact .pure rfl
  | shape nodes =>
    rw [additionalSchema, additionalSchema]
    exact each _ List.mem_cons_self _ nodes

theorem part_run {p : Option String} {a b : Shape Node} (related : WrittenAlike sim.result a b)
    (collected : ∀ name, sim.Runs Eq (collect r₁ s name) (collect r₂ s name))
    (each : ∀ m ∈ a.children, ∀ n, sim.result m n → sim.Runs Eq (schemaOf r₁ s m) (schemaOf r₂ s n)) :
    sim.Runs Eq (schemaPartOf r₁ s p a) (schemaPartOf r₂ s p b) := by
  cases related with
  | object properties additional =>
    rw [schemaPartOf, schemaPartOf]
    refine .bind (properties_run properties fun m member => each m ?_) ?_
    · exact List.mem_append_left _ (List.mem_append_left _ member)
    · rintro schemas _ rfl
      refine .bind (additional_run additional fun m member => each m ?_) ?_
      · exact List.mem_append_left _ (List.mem_append_right _ member)
      · rintro schema _ rfl
        exact .pure rfl
  | array item =>
    rw [schemaPartOf, schemaPartOf]
    refine .bind (each _ List.mem_cons_self _ item) ?_
    rintro schema _ rfl
    exact .pure rfl
  | union members =>
    rw [schemaPartOf, schemaPartOf]
    refine .bind (schemas_run members each) ?_
    rintro schemas _ rfl
    exact .pure rfl
  | enumeration =>
    rw [schemaPartOf, schemaPartOf]
    exact .pure rfl
  | @raw d d' t u same =>
    cases t with
    | none =>
      cases u with
      | none =>
        rw [schemaPartOf, schemaPartOf]
        exact .fail fun _ => rfl
      | some document => cases same
    | some document =>
      cases u with
      | none => cases same
      | some document' =>
        rw [schemaPartOf, schemaPartOf]
        rw [show document.content = document'.content from Option.some.inj same]
        exact .pure rfl
  | linked schema =>
    rw [schemaPartOf, schemaPartOf]
    refine .bind (each _ (List.mem_cons_of_mem _ List.mem_cons_self) _ schema) ?_
    rintro written _ rfl
    cases written <;> exact .pure rfl
  | reference name =>
    rw [schemaPartOf, schemaPartOf]
    refine .bind (collected name) ?_
    rintro present _ rfl
    cases present
    · exact .fail fun _ => rfl
    · exact .pure rfl
  | equal leaf =>
    cases a with
    | raw declaration schema =>
      cases schema <;> rw [schemaPartOf, schemaPartOf]
      · exact .fail fun _ => rfl
      · exact .pure rfl
    | imported name module =>
      rw [schemaPartOf, schemaPartOf]
      exact .fail fun _ => rfl
    | object | array | union | reference | linked => exact absurd leaf Bool.false_ne_true
    | _ =>
      rw [schemaPartOf, schemaPartOf]
      exact .pure rfl

-- A definition gets its schema in both runs or in none; one more name is being written below it.
theorem collect_run {name : String}
    (inside : name ∉ s.writing → ∀ m n, sim.result m n → ∀ t : SchemaScope, t.writing = name :: s.writing →
      name ∈ r₁.names → sim.Runs Eq (schemaOf r₁ t m) (schemaOf r₂ t n)) :
    sim.Runs Eq (collect r₁ s name) (collect r₂ s name) := by
  intro d e seen
  rw [collect_eq, collect_eq, ← seen.2]
  by_cases taken : name ∈ s.writing ∨ d.slots.has name
  · rw [if_pos taken, if_pos taken]
    exact ⟨rfl, seen⟩
  · rw [if_neg taken, if_neg taken]
    refine Alongside.bind (ask_run sim.resolve) (fun target target' sources => ?_) d e seen
    refine .bind (ask_run (sim.project sources)) fun a b projected => ?_
    cases projected with
    | none => exact .pure rfl
    | some nodes =>
      refine .bind (fill_run name none) fun _ _ _ => ?_
      refine .bind (inside (fun busy => taken (.inl busy)) _ _ nodes _ rfl (r₁.mem_names_of_find? target.property)) ?_
      rintro schema _ rfl
      exact .bind (fill_run name (some schema)) fun _ _ _ => .pure rfl

theorem schema_run (s : SchemaScope) (m n : Node) (related : sim.result m n) :
    sim.Runs Eq (schemaOf r₁ s m) (schemaOf r₂ s n) := by
  rw [schemaOf_eq, schemaOf_eq, (sim.texts related).pattern]
  refine .bind (part_run (sim.shapes related) (fun name => ?_) fun c child c' nodes => ?_) ?_
  · exact collect_run fun fresh m n nodes t level registered => schema_run t m n nodes
  · exact schema_run s c c' nodes
  · rintro part _ rfl
    exact .pure ((sim.texts related).annotate part)
termination_by (r₁.unvisited s.writing, sizeOf m)
decreasing_by
  · rw [level]
    exact .left _ _ (r₁.unvisited_cons_lt registered fresh)
  · exact .right _ (Node.sizeOf_child child)

theorem definition_run (s : SchemaScope) (name : String) :
    sim.Runs Eq (collect r₁ s name) (collect r₂ s name) :=
  collect_run fun _ m n nodes t _ _ => schema_run t m n nodes

theorem collectAll_run (c : Container) (names : List String) :
    sim.Runs Eq (r₁.collectAll c names) (r₂.collectAll c names) := by
  induction names with
  | nil => exact .pure rfl
  | cons name rest ih => exact .bind (definition_run _ name) fun _ _ _ => ih

theorem collectRoot_run (c : Container) (root : Option String) :
    sim.Runs Eq (r₁.collectRoot c root) (r₂.collectRoot c root) := by
  cases root with
  | none => exact .pure rfl
  | some name =>
    refine .bind (definition_run _ name) ?_
    rintro present _ rfl
    cases present
    · exact .fail fun _ => rfl
    · exact .pure rfl

theorem alone_run {P : α → β → Prop} {x : SchemaDrafting α} {y : SchemaDrafting β} (both : sim.Runs P x y) :
    Alongside sim.strict sim.memory P x.alone y.alone := by
  intro m n seen
  have agree := both ⟨m, []⟩ ⟨n, []⟩ ⟨seen, rfl⟩
  unfold SchemaDrafting.alone
  revert agree
  rcases x ⟨m, []⟩ with ⟨e | a, d⟩ <;> rcases y ⟨n, []⟩ with ⟨f | b, d'⟩ <;> intro agree
  · exact fun exact_ => ⟨(agree exact_).1, (agree exact_).2.1⟩
  · exact agree
  · exact agree
  · exact ⟨agree.1, agree.2.1⟩

theorem schemaFor_run (names : List String) (options : SchemaOptions) :
    Alongside sim.strict sim.memory Eq (r₁.schemaFor names options) (r₂.schemaFor names options) := by
  rw [schemaFor_eq, schemaFor_eq]
  refine alone_run ?_
  refine .bind (collectAll_run _ names) fun _ _ _ => ?_
  refine .bind (collectRoot_run _ _) fun _ _ _ => ?_
  intro d e seen
  exact ⟨congrArg (fun slots => Registry.schemaDocument options (filledSlots slots)) seen.2, seen⟩

theorem nodeSchema_run {m n : Node} (sources : sim.source m n) (definition : String) (c : Container) :
    Alongside sim.strict sim.memory Eq (r₁.nodeSchema definition m c) (r₂.nodeSchema definition n c) := by
  rw [nodeSchema_eq, nodeSchema_eq]
  refine .bind (sim.project sources) fun a b projected => ?_
  cases projected with
  | none => exact .pure rfl
  | some nodes =>
    refine .bind (alone_run (schema_run _ _ _ nodes)) ?_
    rintro schema _ rfl
    exact .pure rfl

end SchemaSimulation
end TwinShape
