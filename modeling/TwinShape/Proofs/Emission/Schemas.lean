import TwinShape.Proofs.Emission.Writing
import TwinShape.Proofs.Schema.Simulation

namespace TwinShape

abbrev SchemaDraft.InSession (r : Registry) (d : SchemaDraft) : Prop := r.InSession d.memory

namespace SchemaDrafting
variable {r : Registry}

-- Writing of schemas that answers for its faults.
abbrev Answers (r : Registry) (P : α → Prop) (x : SchemaDrafting α) : Prop :=
  Inquiry.Ends (SchemaDraft.InSession r) (r.Answers .schema .external) P x

theorem fill_answers (name : String) (schema : Option Json) : Answers r (fun _ => True) (fill name schema) :=
  Inquiry.Ends.intro fun _ reached => ⟨reached, trivial⟩

end SchemaDrafting

namespace SchemaScope
variable {r : Registry} {s : SchemaScope}

-- Writing in a scope that nothing but this stops there.
abbrev Writes (r : Registry) (s : SchemaScope) (stop : Option Node) (x : SchemaDrafting α) : Prop :=
  Inquiry.Writes (SchemaDraft.InSession r) (r.Answers .schema .external) .schema s.definition stop x

theorem schemas_write {ns : List Node} (each : ∀ n ∈ ns, s.Writes r (n.firstMute? .schema) (schemaOf r s n)) :
    s.Writes r (ns.findSome? (Node.firstMute? .schema)) (schemasOf r s ns) := by
  induction ns with
  | nil =>
    rw [schemasOf]
    exact .pure
  | cons n rest ih =>
    rw [schemasOf]
    exact .cons (each n List.mem_cons_self) fun _ => (ih fun m member => each m (List.mem_cons_of_mem _ member)).bind_pure

theorem properties_write {ps : List (Property Node)}
    (each : ∀ n ∈ ps.map (·.value), s.Writes r (n.firstMute? .schema) (schemaOf r s n)) :
    s.Writes r ((ps.map (·.value)).findSome? (Node.firstMute? .schema)) (propertySchemas r s ps) := by
  induction ps with
  | nil =>
    rw [propertySchemas]
    exact .pure
  | cons p rest ih =>
    rw [propertySchemas]
    exact .cons (each p.value List.mem_cons_self) fun _ => (ih fun m member => each m (List.mem_cons_of_mem _ member)).bind_pure

theorem additional_writes {a : Additional Node}
    (each : ∀ n ∈ a.nodes, s.Writes r (n.firstMute? .schema) (schemaOf r s n)) :
    s.Writes r (a.nodes.findSome? (Node.firstMute? .schema)) (additionalSchema r s a) := by
  cases a with
  | shape n =>
    rw [additionalSchema]
    change s.Writes r ([n].findSome? _) _
    rw [List.findSome?_singleton]
    exact each n List.mem_cons_self
  | _ =>
    rw [additionalSchema]
    exact .pure

theorem part_writes {n : Node} (collected : ∀ name, SchemaDrafting.Answers r (fun _ => True) (collect r s name))
    (each : ∀ c ∈ n.shape.writtenNodes, s.Writes r (c.firstMute? .schema) (schemaOf r s c)) (pattern : Option String) :
    s.Writes r (n.firstMute? .schema) (schemaPartOf r s pattern n.shape) := by
  obtain ⟨shape, annotations, optionality, restriction, misuse⟩ := n
  cases shape with
  | object o =>
    obtain ⟨properties, additional, parents⟩ := o
    rw [Node.firstMute?_inside rfl, schemaPartOf]
    change s.Writes r ((properties.map (·.value) ++ additional.nodes).findSome? _) _
    rw [List.findSome?_append]
    refine (properties_write fun c member => each c (List.mem_append_left _ member)).bind fun _ => ?_
    exact (additional_writes fun c member => each c (List.mem_append_right _ member)).bind_pure
  | array item =>
    rw [Node.firstMute?_inside rfl, schemaPartOf]
    exact .cons (each item List.mem_cons_self) fun _ => .pure
  | union members =>
    rw [Node.firstMute?_inside rfl, schemaPartOf]
    exact (schemas_write each).bind_pure
  | reference name =>
    rw [Node.firstMute?_inside rfl, schemaPartOf]
    refine .of_ends (.bind (collected name) fun written _ => ?_)
    cases written with
    | false => exact .fail (.inl rfl)
    | true => exact .pure trivial
  | raw declaration schema =>
    cases schema with
    | none =>
      have complains : Shape.complaint? .schema (.raw declaration none) = some fun definition => .missingRawBackend definition .schema := by
        cases declaration <;> rfl
      rw [Node.firstMute?_mute complains, schemaPartOf]
      exact .stopped (y := ⟨.raw declaration none, annotations, optionality, restriction, misuse⟩) complains
    | some document =>
      have content : Shape.complaint? .schema (.raw declaration (some document)) = none := by cases declaration <;> rfl
      rw [Node.firstMute?_inside content, schemaPartOf]
      exact .pure
  | imported name module =>
    have complains : Shape.complaint? .schema (.imported name module) = some fun definition => .unsupported definition "import" .schema := rfl
    rw [Node.firstMute?_mute complains, schemaPartOf]
    exact .stopped (y := ⟨.imported name module, annotations, optionality, restriction, misuse⟩) complains
  | linked declaration schema =>
    rw [Node.firstMute?_inside rfl, schemaPartOf]
    refine .cons (each schema List.mem_cons_self) fun written => ?_
    cases written <;> exact .pure
  | _ =>
    rw [Node.firstMute?_inside rfl, schemaPartOf]
    exact .pure

theorem collect_answers {name : String}
    (inside : name ∉ s.writing → ∀ n, ∀ t : SchemaScope, t.writing = name :: s.writing → t.definition = name → name ∈ r.names →
      t.Writes r (n.firstMute? .schema) (schemaOf r t n)) :
    SchemaDrafting.Answers r (fun _ => True) (collect r s name) := by
  rw [collect]
  refine .inspect (fun d e seen => by rw [seen.1]) fun draft => ?_
  split
  · exact .pure trivial
  · rename_i fresh
    refine projected_ends (fun _ _ => rfl) .schema (fun _ _ _ => rfl) fun projected told => ?_
    cases projected with
    | none => exact .pure trivial
    | some n =>
      have told := told n rfl
      refine .bind (SchemaDrafting.fill_answers name none) fun _ _ => ?_
      let below := { s with writing := name :: s.writing, definition := name }
      have writes := inside (fun busy => fresh (.inl busy)) n below rfl rfl (Registry.registered_of_tells told).1
      refine .bind (writes.answers told) fun schema _ => ?_
      exact .bind (SchemaDrafting.fill_answers name (some schema)) fun _ _ => .pure trivial

theorem schema_writes (s : SchemaScope) (n : Node) : s.Writes r (n.firstMute? .schema) (schemaOf r s n) := by
  rw [schemaOf_eq]
  refine (part_writes (fun name => ?_) (fun c child => schema_writes s c) n.annotations.pattern).bind_pure
  exact collect_answers fun fresh m t level _ registered => schema_writes t m
termination_by (r.unvisited s.writing, sizeOf n)
decreasing_by
  · rw [level]
    exact .left _ _ (r.unvisited_cons_lt registered fresh)
  · exact .right _ (Node.sizeOf_child (Shape.child_of_written child))

theorem definition_answers (s : SchemaScope) (name : String) :
    SchemaDrafting.Answers r (fun _ => True) (collect r s name) :=
  collect_answers fun _ m t _ _ _ => schema_writes t m

end SchemaScope

namespace Registry
variable {r : Registry}

theorem collectAll_answers (c : Container) (names : List String) :
    SchemaDrafting.Answers r (fun _ => True) (r.collectAll c names) := by
  induction names with
  | nil => exact .pure trivial
  | cons name rest ih => exact .bind (SchemaScope.definition_answers _ name) fun _ _ => ih

theorem collectRoot_answers (c : Container) (root : Option String) :
    SchemaDrafting.Answers r (fun _ => True) (r.collectRoot c root) := by
  cases root with
  | none => exact .pure trivial
  | some name =>
    refine .bind (SchemaScope.definition_answers _ name) fun written _ => ?_
    cases written with
    | true => exact .pure trivial
    | false => exact .fail (.inl rfl)

theorem schemaFor_stops {names : List String} (reached : r.InSession m)
    (failed : (r.schemaFor names options m).1 = .error e)
    (unwritable : e.isUnwritable) : ∃ definition y, r.Stops .schema .external definition y e := by
  have drafting : SchemaDrafting.Answers r (fun _ => True) (r.collectAll options.container names >>= fun _ =>
      r.collectRoot options.container options.root) :=
    .bind (collectAll_answers _ names) fun _ _ => collectRoot_answers _ options.root
  have ended := (Inquiry.Ends.elim drafting (s := ⟨m, []⟩) reached).2
  unfold schemaFor at failed
  dsimp only at failed
  revert failed ended
  rcases (r.collectAll options.container names >>= fun _ => r.collectRoot options.container options.root : SchemaDrafting Unit) ⟨m, []⟩
    with ⟨e' | _, d⟩
  · rintro ⟨⟩ (writable | stops)
    · exact nomatch unwritable.symm.trans writable
    · exact stops
  · exact nofun

end Registry
end TwinShape
