import TwinShape.Proofs.Projection.Memory
import TwinShape.Proofs.Schema.Container
import TwinShape.Proofs.Schema.Objects
import TwinShape.Schema.Evaluator

namespace TwinShape

inductive Node.Shows : Node → ObjectShape Node → Prop
  | own {n : Node} {o : ObjectShape Node} (shape : n.shape = .object o) : Shows n o
  | linked {n declaration side : Node} {o : ObjectShape Node} (shape : n.shape = .linked declaration side)
    (shows : Shows side o) : Shows n o

-- What is demanded of objects is a list of names, none of them twice and each of them declared.
def Json.DemandsDeclared (schema : Json) : Prop :=
  ∀ fields required, schema = .object fields → Table.get? fields "required" = some required →
    ∃ names, required = Json.strings names ∧ names.Nodup ∧ names ⊆ schema.declaredKeys

namespace Node

-- Links add texts to the keywords of an object and hide none of them.
theorem Shows.wraps {n : Node} {o : ObjectShape Node} (shows : n.Shows o) (c : Container)
    (distinct : (o.properties.map (·.name)).Nodup) :
    ∃ fields, n.schema c = .object fields ∧
      Wraps fields (objectFields (o.properties.map fun p => (p.name, p.value.schema c))
        ((o.properties.filter fun p => !p.value.isOptional).map (·.name)) (finishedAdditional c o.additional)) := by
  induction shows with
  | own shape => exact ⟨_, Node.schema_object c shape distinct, annotated_wraps _ (objectFields_wraps _ _ _)⟩
  | @linked n declaration side o shape _ ih =>
    obtain ⟨fields, same, wraps⟩ := ih distinct
    refine ⟨n.annotated fields, ?_, annotated_wraps n wraps⟩
    rw [Node.schema_eq, shape, schemaPart, same, Node.annotate_keywords]

theorem Shows.demandsDeclared {n : Node} {o : ObjectShape Node} (shows : n.Shows o) (c : Container)
    (distinct : (o.properties.map (·.name)).Nodup) : (n.schema c).DemandsDeclared := by
  obtain ⟨fields, same, wraps⟩ := shows.wraps c distinct
  have keyword : ∀ key, isEssential key = true → Table.get? fields key = Table.get? (objectFields _ _ _) key :=
    fun key essential => by rw [← Table.get?_filter (p := isEssential) essential, wraps.essential]
  intro fields' required same' found
  cases same.symm.trans same'
  rw [keyword _ rfl, objectFields_required] at found
  split at found
  · cases found
  · cases found
    refine ⟨_, rfl, distinct.sublist (List.filter_sublist.map _), fun key listed => ?_⟩
    obtain ⟨p, member, rfl⟩ := List.mem_map.1 listed
    have inside : p ∈ o.properties := (List.mem_filter.1 member).1
    rw [same, Json.declaredKeys, keyword _ rfl, objectFields_properties]
    have some_ : (o.properties.map fun p => (p.name, p.value.schema c)).isEmpty = false :=
      List.isEmpty_eq_false_iff_exists_mem.2 ⟨_, List.mem_map_of_mem inside⟩
    rw [some_]
    exact Table.mem_keys_of_mem (List.mem_map_of_mem (f := fun p => (p.name, p.value.schema c)) inside)

def Normally (n : Node) (c : Container) (schema : Json) : Prop :=
  schema = n.schema c ∧ n.Each Normal ∧
    ∀ (x : Node) (o : ObjectShape Node), x.WrittenPart n → x.Shows o → (x.schema c).DemandsDeclared

theorem WrittenPart.part {x n : Node} (written : x.WrittenPart n) : x.Part n := by
  induction written with
  | self => exact .self
  | inside child _ ih => exact .inside (Shape.child_of_written child) ih

theorem Shows.exists_part {n : Node} {o : ObjectShape Node} (shows : n.Shows o) :
    ∃ x : Node, x.Part n ∧ x.shape = .object o := by
  induction shows with
  | own shape => exact ⟨_, .self, shape⟩
  | @linked n declaration side o shape _ ih =>
    obtain ⟨x, part, object⟩ := ih
    exact ⟨x, .inside (child_of_shape shape (List.mem_cons_of_mem _ List.mem_cons_self)) part, object⟩

theorem normally_of_each {n : Node} (each : n.Each Normal) (c : Container) : n.Normally c (n.schema c) := by
  refine ⟨rfl, each, fun x o written shows => shows.demandsDeclared c ?_⟩
  obtain ⟨y, part, object⟩ := shows.exists_part
  have tidy := (each y (part.trans written.part)).tidy
  rw [object] at tidy
  exact tidy.1

end Node

namespace Registry
variable {r : Registry}

theorem nodeSchema_finished {schema : Json} (written : (r.nodeSchema definition n c m).1 = .ok (some schema)) :
    ∃ out, (r.project definition n .external m).1 = .ok (some out) ∧ schema = out.schema c := by
  unfold nodeSchema at written
  rcases ran : r.project definition n .external m with ⟨_ | _ | out, m₁⟩ <;> rw [ran] at written
  · cases written
  · cases written
  · dsimp only at written
    rcases wrote : schemaOf r ⟨c, [], definition⟩ out ⟨m₁, []⟩ with ⟨_ | json, d⟩ <;> rw [wrote] at written
    · cases written
    · cases written
      let s : SchemaScope := ⟨c, [], definition⟩
      have bare : s.Holds [] ⟨m₁, []⟩ := .nothing
      obtain ⟨_, -, -, finished⟩ := schema_finished s out [] _ _ _ bare wrote
      exact ⟨out, rfl, finished.1⟩

theorem schemaFor_normally {names : List String} {options : SchemaOptions} {document : Json}
    (written : r.schemaFor names options m = (.ok document, m')) :
    ∃ shapes : Table Node, document = schemaDocument options
        (shapes.map fun shape => (shape.1, shape.2.schema options.container)) ∧
      document.field? options.container.key = some (.object (shapes.map fun shape => (shape.1, shape.2.schema options.container))) ∧
      ∀ shape ∈ shapes, shape.2.Normally options.container (shape.2.schema options.container) := by
  obtain ⟨shapes, slots, gathered, taken, rfl, -⟩ := schemaFor_written written
  rw [filledSlots_finished taken]
  refine ⟨shapes.reverse, rfl, schemaDocument_container _ _, fun shape member => Node.normally_of_each ?_ _⟩
  have told := ((gatherShapes_tells (.always r) gathered trivial).1.2 shape.1 shape.2 (List.mem_reverse.1 member)).resolve_left nofun
  obtain ⟨m₁, -, answered⟩ := told
  obtain ⟨_, _, -, ran⟩ := Inquiry.of_bind_ok (Prod.ext answered rfl)
  exact project_tidies (congrArg Prod.fst ran)

-- Projections are in normal form, from every memory, and schemas are made of nothing else.
theorem projection_normal (r : Registry) (m : Memory) :
    (∀ definition n v out, (r.project definition n v m).1 = .ok (some out) → out.Each Node.Normal) ∧
    (∀ definition n c schema, (r.nodeSchema definition n c m).1 = .ok (some schema) →
      ∃ out, (r.project definition n .external m).1 = .ok (some out) ∧ out.Normally c schema) ∧
    ∀ names options document, (r.schemaFor names options m).1 = .ok document →
      ∃ shapes : Table Node, document = schemaDocument options
          (shapes.map fun shape => (shape.1, shape.2.schema options.container)) ∧
        document.field? options.container.key =
          some (.object (shapes.map fun shape => (shape.1, shape.2.schema options.container))) ∧
        ∀ shape ∈ shapes, shape.2.Normally options.container (shape.2.schema options.container) := by
  refine ⟨fun _ _ _ _ => project_tidies, fun definition n c schema written => ?_, fun names options document written => ?_⟩
  · obtain ⟨out, projected, rfl⟩ := nodeSchema_finished written
    exact ⟨out, projected, Node.normally_of_each (project_tidies projected) c⟩
  · exact schemaFor_normally (Prod.ext written rfl)

def inheriting : Node :=
  (Node.ofProperties [.of "id" .number, .of "note" (Node.string.onlyIn .internal)]).extending (.referenceTo "Base")

def inherited : Registry :=
  ⟨[⟨"Child", inheriting⟩, ⟨"Base", (Node.ofProperties [.of "id" .string, (Property.of "tag" Node.string.optional).onlyIn .external]).extending
      (.ofProperties [.of "kind" .string])⟩], by decide, .builtIn⟩

theorem projection_normal_inherited : ∃ out schema, (inherited.project "Child" inheriting .external .blank).1 = .ok
    (some out) ∧
    out.Each Node.Normal ∧ (inherited.nodeSchema "Child" inheriting .definitions .blank).1 = .ok (some schema) ∧
    schema.declaredKeys = ["kind", "id", "tag"] ∧ schema.DemandsDeclared := by
  have declares : (inherited.nodeSchema "Child" inheriting .definitions .blank).1.toOption.join.map Json.declaredKeys =
    some ["kind", "id", "tag"] := by cbv
  have projects : ((inherited.project "Child" inheriting .external .blank).1.toOption.join.bind Node.object?).isSome = true := by
    cbv
  obtain ⟨all, single, -⟩ := projection_normal inherited .blank
  rcases written : (inherited.nodeSchema "Child" inheriting .definitions .blank).1 with _ | _ | schema <;>
    rw [written] at declares
  · cases declares
  · cases declares
  · obtain ⟨out, projected, rfl, normal, inside⟩ := single _ _ _ _ written
    rw [projected] at projects
    obtain ⟨o, object⟩ := Option.isSome_iff_exists.1 projects
    have shows : out.Shows o := .own (Node.shape_of_object? object)
    exact ⟨out, _, projected, all _ _ _ _ projected, rfl, Option.some.inj declares, inside out o .self shows⟩

end Registry
end TwinShape
