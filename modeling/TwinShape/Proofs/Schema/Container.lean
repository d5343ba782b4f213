import Mathlib
import TwinShape.Node.Builder
import TwinShape.Proofs.Schema.Shapes
import TwinShape.Schema.Evaluator

namespace TwinShape

theorem filledSlots_full (contents : List (String × Json)) :
    filledSlots (contents.map fun entry => (entry.1, some entry.2)) = contents := by
  induction contents with
  | nil => rfl
  | cons entry rest ih => exact congrArg (entry :: ·) ih

-- Every place is filled in the end, in the order in which the shapes were met.
theorem filledSlots_finished {shapes : Table Node} {slots : Table (Option Json)}
    (taken : Taken (fun _ n => n.Finished c known) [] shapes slots) :
    filledSlots slots = shapes.reverse.map fun shape => (shape.1, shape.2.schema c) := by
  obtain ⟨contents, rfl, related⟩ := taken.settled
  rw [filledSlots_full]
  clear taken
  generalize shapes.reverse = earliest at related ⊢
  induction related with
  | nil => rfl
  | cons head _ ih =>
    obtain ⟨same, finished, -⟩ := head
    rw [List.map_cons, ← ih, ← finished, same]

def Registry.Refers (shapes : Table Node) (name other : String) : Prop :=
  ∃ n, (name, n) ∈ shapes ∧ other ∈ n.references

namespace Registry
variable {r : Registry}

theorem gatherShapes_reaches {pending : List String} {shapes shapes' : Table Node}
    (gathered : r.gatherShapes shapes pending m = (.ok shapes', m')) (member : name ∈ shapes'.keys) :
    name ∈ shapes.keys ∨ ∃ start ∈ pending, Relation.ReflTransGen (Refers shapes') start name := by
  induction shapes, pending using gatherShapes.induct r generalizing m with
  | case1 shapes =>
    rw [gatherShapes] at gathered
    cases gathered
    exact .inl member
  | case2 shapes first rest seen ih =>
    rw [gatherShapes_seen seen] at gathered
    refine (ih gathered).imp_right fun found => ?_
    obtain ⟨start, listed, way⟩ := found
    exact ⟨start, List.mem_cons_of_mem _ listed, way⟩
  | case3 shapes first rest fresh without with_ =>
    rw [gatherShapes_fresh fresh] at gathered
    obtain ⟨target, m₁, resolved, gathered⟩ := Inquiry.of_bind_ok gathered
    obtain ⟨projected, m₂, ran, gathered⟩ := Inquiry.of_bind_ok gathered
    cases projected with
    | none =>
      refine (without gathered).imp_right fun found => ?_
      obtain ⟨start, listed, way⟩ := found
      exact ⟨start, List.mem_cons_of_mem _ listed, way⟩
    | some n =>
      have grown := (gatherShapes_tells (.always r) gathered trivial).1.1
      have placed : (first, n) ∈ shapes' := grown.subset List.mem_cons_self
      rcases with_ target.val target.property n gathered with before | ⟨start, listed, way⟩
      · rcases List.mem_cons.1 before with same | before
        · exact .inr ⟨first, List.mem_cons_self, same ▸ .refl⟩
        · exact .inl before
      · rcases List.mem_append.1 listed with inside | listed
        · exact .inr ⟨first, List.mem_cons_self, way.head ⟨n, placed, inside⟩⟩
        · exact .inr ⟨start, List.mem_cons_of_mem _ listed, way⟩

theorem finished_reference {shapes : Table Node} {slots : Table (Option Json)} {x : Node}
    (taken : Taken (fun _ n => n.Finished c shapes) [] shapes slots) (member : (name, n) ∈ shapes)
    (part : x.WrittenPart n) (named : x.referenceName? = some target) : target ∈ shapes.keys := by
  have place := taken.get? name
  rw [Table.get?_of_mem taken.distinct member] at place
  generalize slots.get? name = slot at place
  cases place with
  | some holds =>
    obtain ⟨_, -, -, emits⟩ := holds
    cases emits.part part with
    | intro _ known _ => exact known target named

-- The texts of a document hide neither its root reference nor its container.
theorem schemaDocument_container (options : SchemaOptions) (container : List (String × Json)) :
    (schemaDocument options container).field? options.container.key = some (.object container) := by
  obtain ⟨root, id, title, description, c⟩ := options
  cases id <;> cases title <;> cases description <;> cases root <;> cases c <;> rfl

-- The container of a document holds the finished schemas of the definitions that a walk in
-- preorder meets, and every reference in one of them points at another.
theorem schemaFor_container {names : List String} {options : SchemaOptions}
    (written : r.schemaFor names options m = (.ok document, m')) :
    ∃ shapes, r.gatherShapes [] (names ++ options.root.toList) m = (.ok shapes, m') ∧ shapes.keys.Nodup ∧
      document.field? options.container.key =
        some (.object (shapes.reverse.map fun shape => (shape.1, shape.2.schema options.container))) ∧
      (∀ name ∈ shapes.keys, ∃ start ∈ names ++ options.root.toList,
        Relation.ReflTransGen (Refers shapes) start name) ∧
      (∀ root, options.root = some root → root ∈ shapes.keys) ∧
      ∀ name n (x : Node) target, (name, n) ∈ shapes → x.WrittenPart n → x.referenceName? = some target → target ∈ shapes.keys ∧
        ∃ fields, x.schema options.container = .object fields ∧
          Table.get? fields "$ref" = some (.string (options.container.pointer target)) := by
  obtain ⟨shapes, slots, gathered, taken, rfl, rooted⟩ := schemaFor_written written
  refine ⟨shapes, gathered, taken.distinct, ?_, fun name member => ?_, rooted, ?_⟩
  · rw [schemaDocument_container, filledSlots_finished taken]
  · exact (gatherShapes_reaches gathered member).resolve_left nofun
  · intro name n x target member part named
    exact ⟨finished_reference taken member part named, Node.schema_reference options.container named⟩

theorem schemaFor_collects {J : Memory → Prop} {names : List String} {options : SchemaOptions} (kept : Kept r J)
    (held : J m)
    (single : ∀ name a b, r.Tells J name .external a → r.Tells J name .external b → a = b)
    (written : r.schemaFor names options m = (.ok document, m')) :
    ∃ container, document = schemaDocument options container ∧
      (∀ name schema, Table.get? container name = some schema →
        ∃ n, r.Tells J name .external (some n) ∧ schema = n.schema options.container) ∧
      ∀ name ∈ names, ∀ n, r.Tells J name .external (some n) →
        Table.get? container name = some (n.schema options.container) := by
  obtain ⟨shapes, slots, gathered, taken, rfl, -⟩ := schemaFor_written written
  have ⟨⟨_, known⟩, all⟩ := gatherShapes_tells kept gathered held
  rw [filledSlots_finished taken]
  refine ⟨_, rfl, fun name schema found => ?_, fun name listed n told => ?_⟩
  · obtain ⟨⟨_, n⟩, member, same⟩ := List.mem_map.1 (Table.mem_of_get? found)
    cases same
    exact ⟨n, (known _ n (List.mem_reverse.1 member)).resolve_left List.not_mem_nil, rfl⟩
  · have met : name ∈ shapes.keys := by
      rcases all name (List.mem_append_left _ listed) with met | none_
      · exact met
      · cases single _ _ _ none_ told
    obtain ⟨n', member⟩ := Table.exists_of_mem_keys met
    cases single _ _ _ ((known name n' member).resolve_left List.not_mem_nil) told
    have keys : Table.keys (shapes.reverse.map fun shape => (shape.1, shape.2.schema options.container)) = shapes.keys.reverse := by
      unfold Table.keys
      rw [List.map_map, ← List.map_reverse]
      rfl
    refine Table.get?_of_mem (keys ▸ List.nodup_reverse.2 taken.distinct) ?_
    exact List.mem_map.2 ⟨(name, n), List.mem_reverse.2 member, rfl⟩

-- Two definitions that refer to one another, and a third that nothing leads to.
def paired : Registry :=
  ⟨[⟨"C", .string⟩, ⟨"A", .ofProperties [.of "next" (.referenceTo "B"), .of "self" (.referenceTo "A")]⟩,
    ⟨"B", .arrayOf (.referenceTo "A")⟩], by decide, .builtIn⟩

theorem schemaFor_paired : ∃ document m' shapes, paired.schemaFor ["A"] .plain .blank = (.ok document, m') ∧
    paired.gatherShapes [] ["A"] .blank = (.ok shapes, m') ∧ shapes.keys.reverse = ["A", "B"] ∧
    document.field? "definitions" = some (.object (shapes.reverse.map fun shape => (shape.1, shape.2.schema .definitions))) := by
  have succeeds : (paired.schemaFor ["A"] .plain .blank).1.isOk = true := by cbv
  have met : (paired.gatherShapes [] ["A"] .blank).1.toOption.map Table.keys = some ["B", "A"] := by cbv
  rcases written : paired.schemaFor ["A"] .plain .blank with ⟨e | document, m'⟩
  · rw [written] at succeeds
    cases succeeds
  · obtain ⟨shapes, gathered, -, made, -⟩ := schemaFor_container written
    change paired.gatherShapes [] ["A"] .blank = _ at gathered
    rw [gathered] at met
    have keys : shapes.keys = ["B", "A"] := Option.some.inj met
    exact ⟨document, m', shapes, rfl, gathered, congrArg List.reverse keys, made⟩

end Registry
end TwinShape
