import TwinShape.Proofs.Projection.Faults
import TwinShape.Proofs.Schema.Finished
import TwinShape.Proofs.Schema.Simulation

namespace TwinShape

-- When schemas are written to the end, or up to a fault of some kind. `good` is what can be said
-- of projected nodes, `named` of definitions that they refer to, and `lacking` of definitions
-- without an external shape.
structure Completion (r : Registry) where
  memory : Memory → Prop
  fault : Fault → Prop
  good : Node → Prop
  named : String → Prop
  lacking : String → Prop
  child : good n → c ∈ n.shape.writtenNodes → good c
  reference : good n → n.shape = .reference name → named name ∧ ¬lacking name
  unwritable : good n → n.shape.isWritable = false → e.isAbsence = false → fault e
  resolve : named name → Inquiry.Ends memory fault (fun target => r.Resolves name target.val) (r.resolve name)
  project : named name → r.Resolves name n → Inquiry.Ends memory fault
    (fun out => (out = none → lacking name) ∧ ∀ m, out = some m → good m) (r.project name n .external)

namespace Completion
variable {r : Registry} (run : Completion r)

abbrev Ends (P : α → Prop) (x : SchemaDrafting α) : Prop := Inquiry.Ends (fun d => run.memory d.memory) run.fault P x

variable {run}

theorem ask_ends {P : α → Prop} {q : Question α} (ends : Inquiry.Ends run.memory run.fault P q) :
    run.Ends P (SchemaDrafting.ask q) :=
  Inquiry.Ends.intro fun d known => Inquiry.Ends.elim ends (s := d.memory) known

theorem fill_ends (name : String) (schema : Option Json) : run.Ends (fun _ => True) (SchemaDrafting.fill name schema) :=
  Inquiry.Ends.intro fun _ known => ⟨known, trivial⟩

variable {s : SchemaScope}

theorem schemas_end {ns : List Node} (each : ∀ n ∈ ns, run.Ends (fun _ => True) (schemaOf r s n)) :
    run.Ends (fun _ => True) (schemasOf r s ns) := by
  induction ns with
  | nil =>
    rw [schemasOf]
    exact .pure trivial
  | cons n rest ih =>
    rw [schemasOf]
    refine .bind (each n List.mem_cons_self) fun _ _ => ?_
    exact .bind (ih fun m member => each m (List.mem_cons_of_mem _ member)) fun _ _ => .pure trivial

theorem properties_end {ps : List (Property Node)}
    (each : ∀ n ∈ ps.map (·.value), run.Ends (fun _ => True) (schemaOf r s n)) :
    run.Ends (fun _ => True) (propertySchemas r s ps) := by
  induction ps with
  | nil =>
    rw [propertySchemas]
    exact .pure trivial
  | cons p rest ih =>
    rw [propertySchemas]
    refine .bind (each p.value List.mem_cons_self) fun _ _ => ?_
    exact .bind (ih fun m member => each m (List.mem_cons_of_mem _ member)) fun _ _ => .pure trivial

theorem additional_ends {additional : Additional Node}
    (each : ∀ n ∈ additional.nodes, run.Ends (fun _ => True) (schemaOf r s n)) :
    run.Ends (fun _ => True) (additionalSchema r s additional) := by
  cases additional with
  | forbidden =>
    rw [additionalSchema]
    exact .pure trivial
  | allowed =>
    rw [additionalSchema]
    exact .pure trivial
  | shape n =>
    rw [additionalSchema]
    exact each n List.mem_cons_self

theorem part_ends {pattern : Option String} {shape : Shape Node}
    (unwritable : shape.isWritable = false → ∀ e : Fault, e.isAbsence = false → run.fault e)
    (collected : ∀ name, shape = .reference name → ¬run.lacking name ∧
      run.Ends (fun written => written = false → run.lacking name) (collect r s name))
    (each : ∀ n ∈ shape.writtenNodes, run.Ends (fun _ => True) (schemaOf r s n)) :
    run.Ends (fun _ => True) (schemaPartOf r s pattern shape) := by
  cases shape with
  | object o =>
    obtain ⟨properties, additional, parents⟩ := o
    rw [schemaPartOf]
    refine .bind (properties_end fun n member => each n (List.mem_append_left _ member)) fun _ _ => ?_
    exact .bind (additional_ends fun n member => each n (List.mem_append_right _ member)) fun _ _ => .pure trivial
  | array item =>
    rw [schemaPartOf]
    exact .bind (each _ List.mem_cons_self) fun _ _ => .pure trivial
  | union members =>
    rw [schemaPartOf]
    exact .bind (schemas_end each) fun _ _ => .pure trivial
  | reference name =>
    obtain ⟨exists_, ends⟩ := collected name rfl
    rw [schemaPartOf]
    refine .bind ends fun written lacking => ?_
    cases written with
    | true => exact .pure trivial
    | false => exact absurd (lacking rfl) exists_
  | raw declaration schema =>
    cases schema with
    | none =>
      rw [schemaPartOf]
      exact .fail (unwritable rfl _ rfl)
    | some document =>
      rw [schemaPartOf]
      exact .pure trivial
  | imported name module =>
    rw [schemaPartOf]
    exact .fail (unwritable rfl _ rfl)
  | linked declaration schema =>
    rw [schemaPartOf]
    refine .bind (each _ List.mem_cons_self) fun written _ => ?_
    cases written <;> exact .pure trivial
  | _ =>
    rw [schemaPartOf]
    exact .pure trivial

-- A definition that is not written has no external shape; one more name is being written below.
theorem collect_ends {name : String} (named : run.named name)
    (inside : name ∉ s.writing → ∀ n, run.good n → ∀ t : SchemaScope,
      t.writing = name :: s.writing → name ∈ r.names → run.Ends (fun _ => True) (schemaOf r t n)) :
    run.Ends (fun written => written = false → run.lacking name) (collect r s name) := by
  refine Inquiry.Ends.intro fun d known => ?_
  rw [collect_eq]
  by_cases taken : name ∈ s.writing ∨ d.slots.has name
  · rw [if_pos taken]
    exact ⟨known, nofun⟩
  · rw [if_neg taken]
    refine Inquiry.Ends.elim (.bind (ask_ends (run.resolve named)) fun target resolves => ?_) known
    refine .bind (ask_ends (run.project named resolves)) ?_
    rintro projected ⟨lacking, good⟩
    cases projected with
    | none => exact .pure fun _ => lacking rfl
    | some n =>
      refine .bind (fill_ends name none) fun _ _ => ?_
      refine .bind (inside (fun busy => taken (.inl busy)) n (good n rfl) _ rfl (r.mem_names_of_find? target.property)) fun schema _ => ?_
      exact .bind (fill_ends name (some schema)) fun _ _ => .pure nofun

variable (run)

theorem schema_ends (s : SchemaScope) (n : Node) (good : run.good n) : run.Ends (fun _ => True) (schemaOf r s n) := by
  rw [schemaOf_eq]
  refine .bind (part_ends (fun unwritable e => run.unwritable good unwritable) (fun name shape => ?_) fun c child => ?_)
    fun _ _ => .pure trivial
  · have ⟨named, exists_⟩ := run.reference good shape
    exact ⟨exists_, collect_ends named fun fresh m good' t level registered => schema_ends t m good'⟩
  · exact schema_ends s c (run.child good child)
termination_by (r.unvisited s.writing, sizeOf n)
decreasing_by
  · rw [level]
    exact .left _ _ (r.unvisited_cons_lt registered fresh)
  · exact .right _ (Node.sizeOf_child (Shape.child_of_written child))

theorem definition_ends (s : SchemaScope) (named : run.named name) :
    run.Ends (fun written => written = false → run.lacking name) (collect r s name) :=
  collect_ends named fun _ n good t _ _ => run.schema_ends t n good

theorem collectAll_ends (c : Container) {names : List String} (named : ∀ name ∈ names, run.named name) :
    run.Ends (fun _ => True) (r.collectAll c names) := by
  induction names with
  | nil => exact .pure trivial
  | cons name rest ih =>
    refine .bind (run.definition_ends _ (named name List.mem_cons_self)) fun _ _ => ?_
    exact ih fun other member => named other (List.mem_cons_of_mem _ member)

end Completion
end TwinShape
