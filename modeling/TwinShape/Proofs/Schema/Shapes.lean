import TwinShape.Proofs.Registry.Requests
import TwinShape.Proofs.Schema.Finished
import TwinShape.Proofs.Walk

namespace TwinShape

-- The external shapes of the definitions that are asked for, in order, each followed by
-- those that its schema refers to. Definitions without one are passed over.
def Registry.gatherShapes (r : Registry) (shapes : Table Node) (pending : List String) : Question (Table Node) :=
  match pending with
  | [] => pure shapes
  | name :: rest =>
    if _seen : name ∈ shapes.keys then r.gatherShapes shapes rest
    else do
      let ⟨target, _found⟩ ← r.resolve name
      match ← r.project name target .external with
      | none => r.gatherShapes shapes rest
      | some n => r.gatherShapes ((name, n) :: shapes) (n.references ++ rest)
termination_by (r.unvisited shapes.keys, pending.length)
decreasing_by
  · exact .right _ (by simp)
  · exact .right _ (by simp)
  · exact .left _ _ (r.unvisited_cons_lt (r.mem_names_of_find? _found) _seen)

def Registry.externalShapes (r : Registry) (root : String) : Question (Table Node) :=
  r.gatherShapes [] (r.names ++ [root])

namespace Registry
variable {r : Registry} {shapes : Table Node}

theorem gatherShapes_seen (seen : name ∈ shapes.keys) (rest : List String) :
    r.gatherShapes shapes (name :: rest) = r.gatherShapes shapes rest := by
  rw [gatherShapes, dif_pos seen]

theorem gatherShapes_fresh (fresh : name ∉ shapes.keys) (rest : List String) :
    r.gatherShapes shapes (name :: rest) = r.resolve name >>= fun target =>
      r.project name target.val .external >>= fun projected =>
        match projected with
        | none => r.gatherShapes shapes rest
        | some n => r.gatherShapes ((name, n) :: shapes) (n.references ++ rest) := by
  rw [gatherShapes, dif_neg fresh]

end Registry

theorem SchemaDrafting.of_ask_ok {q : Question α} {d d' : SchemaDraft} (done : SchemaDrafting.ask q d = (.ok a, d')) :
    ∃ m, q d.memory = (.ok a, m) ∧ d' = ⟨m, d.slots⟩ := by
  unfold SchemaDrafting.ask Inquiry.within at done
  refine ⟨(q d.memory).2, ?_, ?_⟩
  · rw [← (Prod.mk.inj done).1]
  · exact (Prod.mk.inj done).2.symm

theorem SchemaDrafting.of_alone_ok {x : SchemaDrafting α} (done : x.alone m = (.ok a, m')) :
    ∃ d, x ⟨m, []⟩ = (.ok a, d) ∧ m' = d.memory := by
  unfold SchemaDrafting.alone at done
  obtain ⟨answer, after⟩ := Prod.mk.inj done
  exact ⟨(x ⟨m, []⟩).2, Prod.ext answer rfl, after.symm⟩

def SchemaOptions.rooted (root : String) : SchemaOptions := { SchemaOptions.plain with root := some root }

structure Slots (c : Container) (writing : List String) (shapes : Table Node) (slots : Table (Option Json)) : Prop where
  slot : ∀ name, slots.get? name =
    (shapes.get? name).map fun n => if name ∈ writing then none else some (n.written c)
  distinct : slots.keys.Nodup
  begun : writing ⊆ shapes.keys

def Node.Finished (c : Container) (n : Node) (shapes : Table Node) (schema : Json) : Prop :=
  schema = n.schema c ∧ n.Emits shapes.keys

-- The writing of schemas meets definitions in the order in which their shapes are gathered.
def Registry.shapesWalk (r : Registry) : Walk SchemaDraft (Table Node) String where
  goes names shapes d shapes' d' := shapes <:+ shapes' ∧
    ∀ rest, r.gatherShapes shapes (names ++ rest) d.memory = r.gatherShapes shapes' rest d'.memory
  le shapes shapes' := shapes <:+ shapes'
  stay := ⟨List.suffix_rfl, fun _ => rfl⟩
  onward first second := by
    refine ⟨first.1.trans second.1, fun rest => ?_⟩
    rw [List.append_assoc, first.2, second.2]
  grows goes := goes.1

def SchemaScope.Holds (s : SchemaScope) (shapes : Table Node) (d : SchemaDraft) : Prop :=
  Taken (fun _ n => n.Finished s.container shapes) s.writing shapes d.slots

namespace Registry
variable {r : Registry} {s : SchemaScope}

theorem keys_grow {shapes shapes' : Table Node} (grown : shapes <:+ shapes') : shapes.keys ⊆ shapes'.keys :=
  List.map_subset _ grown.subset

theorem finished_lasts (c : Container) (n : Node) (schema : Json) :
    r.shapesWalk.Lasts fun shapes => n.Finished c shapes schema :=
  fun _ _ grown finished => ⟨finished.1, finished.2.mono (keys_grow grown)⟩

abbrev Writes (r : Registry) (s : SchemaScope) (names : List String) (P : Table Node → α → Prop)
    (x : SchemaDrafting α) : Prop := r.shapesWalk.Follows s.Holds names P x

theorem schemas_written {ms : List Node}
    (each : ∀ m ∈ ms, r.Writes s m.references (m.Finished s.container)
      (schemaOf r s m)) :
    r.Writes s (ms.flatMap Node.references) (fun shapes schemas =>
      schemas = finishedMembers s.container ms ∧ ∀ m ∈ ms, m.Emits shapes.keys) (schemasOf r s ms) := by
  induction ms with
  | nil =>
    rw [schemasOf]
    exact .pure fun _ => ⟨rfl, List.forall_mem_nil _⟩
  | cons m rest ih =>
    rw [schemasOf]
    refine .bind (each m List.mem_cons_self) (finished_lasts _ m) fun schema => ?_
    refine .bind_pure (ih fun n member => each n (List.mem_cons_of_mem _ member)) ?_
    intro shapes schemas later first
    exact ⟨congrArg₂ List.cons first.1 later.1, List.forall_mem_cons.2 ⟨first.2, later.2⟩⟩

theorem properties_written {ps : List (Property Node)}
    (each : ∀ m ∈ ps.map (·.value), r.Writes s m.references
      (m.Finished s.container) (schemaOf r s m)) :
    r.Writes s ((ps.map (·.value)).flatMap Node.references) (fun shapes schemas =>
      schemas = finishedProperties s.container ps ∧ ∀ m ∈ ps.map (·.value), m.Emits shapes.keys)
      (propertySchemas r s ps) := by
  induction ps with
  | nil =>
    rw [propertySchemas]
    exact .pure fun _ => ⟨rfl, List.forall_mem_nil _⟩
  | cons p rest ih =>
    obtain ⟨name, value, restriction⟩ := p
    rw [propertySchemas]
    refine .bind (each value List.mem_cons_self) (finished_lasts _ value) fun schema => ?_
    refine .bind_pure (ih fun n member => each n (List.mem_cons_of_mem _ member)) ?_
    intro shapes schemas later first
    refine ⟨?_, List.forall_mem_cons.2 ⟨first.2, later.2⟩⟩
    rw [finishedProperties, first.1, later.1]

theorem additional_written {a : Additional Node}
    (each : ∀ m ∈ a.nodes, r.Writes s m.references
      (m.Finished s.container) (schemaOf r s m)) :
    r.Writes s (a.nodes.flatMap Node.references) (fun shapes schema =>
      schema = finishedAdditional s.container a ∧ ∀ m ∈ a.nodes, m.Emits shapes.keys) (additionalSchema r s a) := by
  cases a with
  | forbidden | allowed =>
    rw [additionalSchema]
    exact .pure fun _ => ⟨rfl, List.forall_mem_nil _⟩
  | shape n =>
    rw [additionalSchema]
    change r.Writes s (n.references ++ []) _ _
    rw [List.append_nil]
    exact (each n List.mem_cons_self).weaken fun _ _ finished => ⟨finished.1, List.forall_mem_singleton.2 finished.2⟩

theorem object_written {o : ObjectShape Node} {pattern : Option String}
    (each : ∀ m ∈ (Shape.object o).writtenNodes, r.Writes s m.references
      (m.Finished s.container) (schemaOf r s m)) :
    r.Writes s ((Shape.object o).writtenNodes.flatMap Node.references) (fun shapes part =>
      part = schemaPart s.container pattern (.object o) ∧ ∀ m ∈ (Shape.object o).writtenNodes, m.Emits shapes.keys)
      (schemaPartOf r s pattern (.object o)) := by
  obtain ⟨ps, a, parents⟩ := o
  rw [schemaPartOf]
  change r.Writes s ((ps.map (·.value) ++ a.nodes).flatMap Node.references) _ _
  rw [List.flatMap_append]
  refine .bind (properties_written fun m member => each m (List.mem_append_left _ member)) ?_ fun schemas => ?_
  · intro _ _ _ grown own
    exact ⟨own.1, fun m member => (own.2 m member).mono (keys_grow grown)⟩
  · refine .bind_pure (additional_written fun m member => each m (List.mem_append_right _ member)) ?_
    intro shapes schema further own
    refine ⟨?_, fun m member => ?_⟩
    · rw [schemaPart, own.1, further.1]
    · rcases List.mem_append.1 member with member | member
      · exact own.2 m member
      · exact further.2 m member

theorem part_written {n : Node}
    (collected : ∀ name, r.Writes s [name] (fun shapes present => present = true → name ∈ shapes.keys) (collect r s name))
    (each : ∀ m ∈ n.shape.writtenNodes, r.Writes s m.references
      (m.Finished s.container) (schemaOf r s m)) :
    r.Writes s n.references (fun shapes part =>
      part = schemaPart s.container n.annotations.pattern n.shape ∧ n.Emits shapes.keys)
      (schemaPartOf r s n.annotations.pattern n.shape) := by
  rw [Node.references_eq]
  obtain ⟨shape, annotations, optionality, restriction, misuse⟩ := n
  dsimp only at each ⊢
  cases shape with
  | object o =>
    refine (object_written each).weaken fun shapes part own => ?_
    exact ⟨own.1, .made rfl rfl own.2⟩
  | array item =>
    rw [schemaPartOf]
    change r.Writes s (item.references ++ []) _ _
    rw [List.append_nil]
    refine .bind_pure (each item List.mem_cons_self) ?_
    intro shapes schema inner
    refine ⟨?_, .made rfl rfl (List.forall_mem_singleton.2 inner.2)⟩
    rw [schemaPart, inner.1]
  | union ms =>
    rw [schemaPartOf]
    change ∀ m ∈ ms, _ at each
    refine .bind_pure (schemas_written each) ?_
    intro shapes schemas inner
    exact ⟨congrArg (fun schemas => SchemaPart.keywords [("anyOf", Json.array schemas)]) inner.1, .made rfl rfl inner.2⟩
  | linked declaration schema =>
    rw [schemaPartOf]
    change r.Writes s (schema.references ++ []) _ _
    refine .bind (each schema List.mem_cons_self) (finished_lasts _ schema) fun json => ?_
    have emits : ∀ {shapes : Table Node}, schema.Emits shapes.keys →
        Node.Emits shapes.keys ⟨.linked declaration schema, annotations, optionality, restriction, misuse⟩ :=
      fun inner => .made rfl rfl (List.forall_mem_singleton.2 inner)
    cases json with
    | object fields =>
      refine .pure fun shapes inner => ⟨?_, emits inner.2⟩
      rw [schemaPart, ← inner.1]
    | _ =>
      refine .pure fun shapes inner => ⟨?_, emits inner.2⟩
      rw [schemaPart, ← inner.1]
  | reference name =>
    rw [schemaPartOf]
    change r.Writes s ([name] ++ []) _ _
    refine .bind (collected name) (fun _ _ _ grown found yes => keys_grow grown (found yes)) fun present => ?_
    cases present with
    | false => exact .fail
    | true =>
      refine .pure fun shapes found => ⟨rfl, .intro rfl ?_ (List.forall_mem_nil _)⟩
      intro other same
      cases same
      exact found rfl
  | raw declaration schema =>
    cases schema with
    | none =>
      rw [schemaPartOf]
      exact .fail
    | some document =>
      rw [schemaPartOf]
      exact .pure fun _ => ⟨rfl, .leaf rfl rfl rfl⟩
  | imported name module =>
    rw [schemaPartOf]
    exact .fail
  | _ =>
    rw [schemaPartOf]
    exact .pure fun _ => ⟨rfl, .leaf rfl rfl rfl⟩

-- A definition takes its place and then gets its schema; one more name is being written below it.
theorem collect_written {name : String}
    (inside : name ∉ s.writing → name ∈ r.names → ∀ n, ∀ t : SchemaScope,
      t.container = s.container → t.writing = name :: s.writing →
      r.Writes t n.references (n.Finished t.container) (schemaOf r t n)) :
    r.Writes s [name] (fun shapes present => present = true → name ∈ shapes.keys) (collect r s name) := by
  intro shapes d present d' held done
  rw [collect_eq] at done
  by_cases seen : name ∈ shapes.keys
  · rw [if_pos (held.has_iff.2 seen)] at done
    cases done
    exact ⟨shapes, ⟨List.suffix_rfl, fun rest => congrFun (gatherShapes_seen seen rest) _⟩, held, fun _ => seen⟩
  · rw [if_neg fun taken => seen (held.has_iff.1 taken)] at done
    obtain ⟨target, d₁, asked, done⟩ := Inquiry.of_bind_ok done
    obtain ⟨m₁, resolved, rfl⟩ := SchemaDrafting.of_ask_ok asked
    obtain ⟨projected, d₂, asked, done⟩ := Inquiry.of_bind_ok done
    obtain ⟨m₂, ran, rfl⟩ := SchemaDrafting.of_ask_ok asked
    clear asked
    dsimp only at ran done
    have walk : ∀ rest, r.gatherShapes shapes (name :: rest) d.memory = (match projected with
        | none => r.gatherShapes shapes rest
        | some n => r.gatherShapes ((name, n) :: shapes) (n.references ++ rest)) m₂ := by
      intro rest
      rw [gatherShapes_fresh seen, Inquiry.bind_ok resolved, Inquiry.bind_ok ran]
    cases projected with
    | none =>
      cases done
      exact ⟨shapes, ⟨List.suffix_rfl, walk⟩, held, nofun⟩
    | some n =>
      have fresh : name ∉ s.writing := fun busy => seen (held.begun busy)
      obtain ⟨_, d₃, begun, done⟩ := Inquiry.of_bind_ok done
      cases begun
      obtain ⟨schema, d₄, wrote, done⟩ := Inquiry.of_bind_ok done
      obtain ⟨_, d₅, filled, done⟩ := Inquiry.of_bind_ok done
      cases filled
      cases done
      let t : SchemaScope := { s with writing := name :: s.writing, definition := name }
      have began : t.Holds ((name, n) :: shapes) ⟨m₂, d.slots.set name none⟩ :=
        (held.start seen n).weaken fun _ k schema => r.finished_lasts s.container k schema _ _ (List.suffix_cons _ _)
      obtain ⟨shapes', ⟨grown, below⟩, held', finished⟩ :=
        inside fresh (r.mem_names_of_find? target.property) n t rfl rfl _ _ _ _ began wrote
      have placed : (name, n) ∈ shapes' := grown.subset List.mem_cons_self
      refine ⟨shapes', ⟨(List.suffix_cons _ _).trans grown, fun rest => (walk rest).trans (below rest)⟩, ?_, ?_⟩
      · exact held'.finish placed fresh finished
      · exact fun _ => Table.mem_keys_of_mem placed

theorem schema_finished (s : SchemaScope) (n : Node) :
    r.Writes s n.references (n.Finished s.container) (schemaOf r s n) := by
  rw [schemaOf_eq]
  refine .bind_pure (part_written (fun name => ?_) fun m member => schema_finished s m) ?_
  · exact collect_written fun fresh registered n' t same level => schema_finished t n'
  · intro shapes part finished
    exact ⟨by rw [finished.1, ← Node.schema_eq], finished.2⟩
termination_by (r.unvisited s.writing, sizeOf n)
decreasing_by
  · rw [level]
    exact .left _ _ (r.unvisited_cons_lt registered fresh)
  · exact .right _ (Node.sizeOf_child (Shape.child_of_written member))

theorem definition_written (s : SchemaScope) (name : String) :
    r.Writes s [name] (fun shapes present => present = true → name ∈ shapes.keys) (collect r s name) :=
  collect_written fun _ _ n t _ _ => schema_finished t n

theorem all_written (c : Container) (names : List String) :
    r.Writes ⟨c, [], ""⟩ names (fun _ _ => True) (r.collectAll c names) := by
  induction names with
  | nil => exact .pure fun _ => trivial
  | cons name rest ih =>
    refine .bind (definition_written ⟨c, [], ""⟩ name) (fun _ _ _ grown found yes => keys_grow grown (found yes)) ?_
    exact fun _ => ih.weaken fun _ _ _ _ => trivial

theorem root_written (c : Container) (root : Option String) :
    r.Writes ⟨c, [], ""⟩ root.toList (fun shapes _ => ∀ name, root = some name → name ∈ shapes.keys)
      (r.collectRoot c root) := by
  cases root with
  | none => exact .pure fun _ => nofun
  | some name =>
    change r.Writes ⟨c, [], ""⟩ ([name] ++ []) _ _
    refine .bind (definition_written ⟨c, [], ""⟩ name) (fun _ _ _ grown found yes => keys_grow grown (found yes)) ?_
    intro present
    cases present with
    | false => exact .fail
    | true =>
      refine .pure fun shapes found other same => ?_
      cases same
      exact found rfl

end Registry

-- What is gathered was gathered before or is projected now, and what is not gathered has no shape.
theorem Registry.gatherShapes_tells {r : Registry} {J : Memory → Prop} (kept : Kept r J) {pending : List String}
    {shapes shapes' : Table Node} (gathered : r.gatherShapes shapes pending m = (.ok shapes', m')) (held : J m) :
    (shapes <:+ shapes' ∧ ∀ name n, (name, n) ∈ shapes' → (name, n) ∈ shapes ∨ r.Tells J name .external (some n)) ∧
      ∀ name ∈ pending, name ∈ shapes'.keys ∨ r.Tells J name .external none := by
  induction shapes, pending using gatherShapes.induct r generalizing m with
  | case1 shapes =>
    rw [gatherShapes] at gathered
    cases gathered
    exact ⟨⟨List.suffix_rfl, fun _ _ => .inl⟩, List.forall_mem_nil _⟩
  | case2 shapes name rest seen ih =>
    rw [gatherShapes_seen seen] at gathered
    obtain ⟨⟨grown, sound⟩, others⟩ := ih gathered held
    exact ⟨⟨grown, sound⟩, List.forall_mem_cons.2 ⟨.inl (keys_grow grown seen), others⟩⟩
  | case3 shapes name rest fresh without with_ =>
    rw [gatherShapes_fresh fresh] at gathered
    obtain ⟨target, m₁, resolved, gathered⟩ := Inquiry.of_bind_ok gathered
    obtain ⟨projected, m₂, ran, gathered⟩ := Inquiry.of_bind_ok gathered
    have answered : r.projectDefinition name .external m = (.ok projected, m₂) := (Inquiry.bind_ok resolved).trans ran
    have held₂ : J m₂ := by
      have after := kept.projectDefinition name .external m held
      rwa [answered] at after
    have told : r.Tells J name .external projected := ⟨m, held, congrArg Prod.fst answered⟩
    cases projected with
    | none =>
      obtain ⟨walk, others⟩ := without gathered held₂
      exact ⟨walk, List.forall_mem_cons.2 ⟨.inr told, others⟩⟩
    | some n =>
      obtain ⟨⟨grown, sound⟩, others⟩ := with_ target.val target.property n gathered held₂
      refine ⟨⟨(List.suffix_cons _ _).trans grown, fun other k member => ?_⟩, List.forall_mem_cons.2 ⟨?_, fun other member => ?_⟩⟩
      · rcases sound other k member with before | now
        · rcases List.mem_cons.1 before with same | before
          · cases same
            exact .inr told
          · exact .inl before
        · exact .inr now
      · exact .inl (keys_grow grown List.mem_cons_self)
      · exact others other (List.mem_append_right _ member)

theorem Registry.schemaFor_written {r : Registry} {names : List String} {options : SchemaOptions}
    (written : r.schemaFor names options m = (.ok document, m')) :
    ∃ shapes slots, r.gatherShapes [] (names ++ options.root.toList) m = (.ok shapes, m') ∧
      Taken (fun _ n => n.Finished options.container shapes) [] shapes slots ∧
      document = Registry.schemaDocument options (filledSlots slots) ∧
      ∀ root, options.root = some root → root ∈ shapes.keys := by
  rw [schemaFor_eq] at written
  obtain ⟨d, ran, rfl⟩ := SchemaDrafting.of_alone_ok written
  obtain ⟨_, middle, all, ran⟩ := Inquiry.of_bind_ok ran
  obtain ⟨_, _, main, ran⟩ := Inquiry.of_bind_ok ran
  cases ran
  obtain ⟨between, first, held, -⟩ := all_written options.container names [] ⟨m, []⟩ _ _ .nothing all
  obtain ⟨shapes, second, held, rooted⟩ := root_written options.container options.root _ _ _ _ held main
  refine ⟨shapes, d.slots, ?_, held, rfl, rooted⟩
  have ended : r.gatherShapes shapes [] d.memory = (.ok shapes, d.memory) := by
    rw [gatherShapes]
    rfl
  have walk := (r.shapesWalk.onward first second).2 []
  rw [List.append_nil] at walk
  exact walk.trans ended

theorem Registry.schemaFor_shapes {r : Registry} {names : List String} {sound : String → Node → Prop}
    (shaped : ∀ {name target m n m'}, r.find? name = some target →
      r.project name target .external m = (.ok (some n), m') → sound name n)
    (plain : ∀ {name n}, sound name n → n.Each fun x => ∀ declaration schema, x.shape ≠ .raw declaration schema)
    (written : r.schemaFor names options m = (.ok document, m')) :
    ∃ shapes slots, r.gatherShapes [] (names ++ options.root.toList) m = (.ok shapes, m') ∧
      Slots options.container [] shapes slots ∧ document = Registry.schemaDocument options (filledSlots slots) ∧
      (∀ root, options.root = some root → root ∈ shapes.keys) ∧
      ∀ name n, shapes.get? name = some n → sound name n ∧ n.Written shapes.keys := by
  obtain ⟨shapes, slots, gathered, taken, rfl, rooted⟩ := schemaFor_written written
  have good : ∀ name n, shapes.get? name = some n → sound name n := by
    intro name n found
    rcases (gatherShapes_tells (.always r) gathered trivial).1.2 name n (Table.mem_of_get? found) with member | told
    · cases member
    · obtain ⟨m₁, -, answered⟩ := told
      obtain ⟨target, m₂, -, ran⟩ := Inquiry.of_bind_ok (Prod.ext answered rfl)
      exact shaped target.property ran
  have slot : ∀ name, slots.get? name = (shapes.get? name).map (fun n => some (n.written options.container)) ∧
      ∀ n, shapes.get? name = some n → n.Written shapes.keys := by
    intro name
    have place := taken.get? name
    generalize slots.get? name = slot at place ⊢
    rcases found : shapes.get? name with _ | n <;> rw [found] at place
    · cases place
      exact ⟨rfl, nofun⟩
    · cases place with
      | some holds =>
        obtain ⟨schema, rfl, rfl, emits⟩ := holds
        have unraw := plain (good name n found)
        refine ⟨?_, fun n' same => ?_⟩
        · rw [Node.schema_eq_written _ unraw]
          rfl
        · cases same
          exact emits.written unraw
  refine ⟨shapes, slots, gathered, ⟨fun name => ?_, ?_, List.nil_subset _⟩, rfl, rooted, fun name n found => ?_⟩
  · simpa using (slot name).1
  · rw [taken.keys]
    exact List.nodup_reverse.2 taken.distinct
  · exact ⟨good name n found, (slot name).2 n found⟩

end TwinShape
