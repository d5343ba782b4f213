import TwinShape.Proofs.Schema.Meaning

namespace TwinShape

inductive Shape.States (pattern : Option String) : Shape Node → KeywordName → Json → Prop
  | type (t : TypeName) : States pattern shape .type (.string t.name)
  | properties (distinct : (o.properties.map (·.name)).Nodup) : States pattern (.object o) .properties
      (.object (o.properties.map fun p => (p.name, p.value.written .definitions)))
  | required (distinct : names.Nodup) : States pattern (.object o) .required (Json.strings names)
  | additional : States pattern (.object o) .additional (additionalFields .definitions o.additional)
  | items : States pattern (.array item) .items (item.written .definitions)
  | anyOf : States pattern (.union ms) .anyOf (.array (ms.map (Node.written .definitions)))
  | enumeration : States pattern (.enumeration values naming) .enumeration (.array (values.map Literal.toJson))
  | constant : States pattern (.constant value) .constant value.toJson
  | pattern (set : pattern = some text) : States pattern .string .pattern (.string text)
  | reference : States pattern (.reference name) .reference (.string (Container.definitions.pointer name))

namespace Shape
variable {shape : Shape Node} {pattern : Option String}

theorem states_of_mem (own : ∀ declaration side, shape ≠ .linked declaration side) (distinct : shape.Distinct) :
    ∀ f ∈ shapeFields .definitions pattern shape, shape.States pattern (.ofKey f.1) f.2 := by
  cases shape with
  | object o =>
    have names := distinct o rfl
    rw [shapeFields_object names, objectFields_iff]
    exact ⟨.type .object, fun _ => .properties names, fun _ => .required ((List.filter_sublist.map _).nodup names), .additional⟩
  | array item => exact List.forall_mem_cons.2 ⟨.type .array, List.forall_mem_singleton.2 .items⟩
  | union members =>
    rw [shapeFields, memberFields_eq]
    exact List.forall_mem_singleton.2 .anyOf
  | enumeration => exact List.forall_mem_singleton.2 .enumeration
  | constant => exact List.forall_mem_singleton.2 .constant
  | string =>
    refine List.forall_mem_cons.2 ⟨.type .string, fun f member => ?_⟩
    obtain ⟨text, set, rfl⟩ := List.mem_map.1 member
    exact .pattern (Option.mem_toList.1 set)
  | number => exact List.forall_mem_singleton.2 (.type .number)
  | integer => exact List.forall_mem_singleton.2 (.type .integer)
  | boolean => exact List.forall_mem_singleton.2 (.type .boolean)
  | null => exact List.forall_mem_singleton.2 (.type .null)
  | reference => exact List.forall_mem_singleton.2 .reference
  | linked declaration side => exact absurd rfl (own _ _)
  | raw | imported => exact List.forall_mem_nil _

theorem States.takes {name : KeywordName} (states : shape.States pattern name value) (tidy : shape.Tidy) :
    name.Takes value := by
  cases states with
  | type t => exact ⟨t, rfl⟩
  | @properties o distinct =>
    refine ⟨_, rfl, ?_⟩
    unfold Table.keys
    rw [List.map_map]
    exact distinct
  | required distinct => exact ⟨_, rfl, distinct⟩
  | @anyOf ms =>
    cases ms with
    | nil => exact absurd rfl tidy
    | cons m rest => exact ⟨_, _, rfl⟩
  | enumeration | pattern | reference => exact ⟨_, rfl⟩
  | additional | items | constant => trivial

theorem States.under {name : KeywordName} (states : shape.States pattern name value)
    (member : t ∈ Json.schemasUnder name value) :
    (∃ b, t = .bool b) ∨ ∃ c ∈ shape.writtenNodes, t = c.written .definitions := by
  cases states with
  | @properties o =>
    rw [Json.schemasUnder, List.map_map] at member
    obtain ⟨p, listed, rfl⟩ := List.mem_map.1 member
    exact .inr ⟨p.value, List.mem_append_left _ (List.mem_map_of_mem listed), rfl⟩
  | @additional o =>
    obtain ⟨ps, a, parents⟩ := o
    cases List.mem_singleton.1 member
    cases a with
    | forbidden => exact .inl ⟨false, rfl⟩
    | allowed => exact .inl ⟨true, rfl⟩
    | shape n => exact .inr ⟨n, List.mem_append_right _ List.mem_cons_self, rfl⟩
  | items => exact .inr ⟨_, List.mem_cons_self, List.mem_singleton.1 member⟩
  | anyOf =>
    obtain ⟨m, listed, rfl⟩ := List.mem_map.1 member
    exact .inr ⟨m, listed, rfl⟩
  | type | required | enumeration | constant | pattern | reference => cases member

theorem exists_field (own : ∀ declaration side, shape ≠ .linked declaration side) (distinct : shape.Distinct)
    (inside : c ∈ shape.writtenNodes) : ∃ f ∈ shapeFields .definitions pattern shape,
      KeywordName.ofKey f.1 ≠ .definitions ∧ c.written .definitions ∈ Json.schemasUnder (.ofKey f.1) f.2 := by
  have apart : ∀ key ∈ ["properties", "additionalProperties", "items", "anyOf"], KeywordName.ofKey key ≠ .definitions := by decide
  cases shape with
  | object o =>
    rw [shapeFields_object (distinct o rfl)]
    rcases List.mem_append.1 inside with inside | inside
    · obtain ⟨p, listed, rfl⟩ := List.mem_map.1 inside
      have entry := List.mem_map_of_mem (f := fun p : Property Node => (p.name, p.value.written .definitions)) listed
      refine ⟨("properties", .object (o.properties.map fun p => (p.name, p.value.written .definitions))), ?_, apart _ (by simp), ?_⟩
      · unfold objectFields
        rw [List.isEmpty_eq_false_iff.2 (List.ne_nil_of_mem entry)]
        simp
      · exact List.mem_map_of_mem (f := (·.2)) entry
    · obtain ⟨ps, a, parents⟩ := o
      cases a with
      | forbidden | allowed => cases inside
      | shape n =>
        cases List.mem_singleton.1 inside
        exact ⟨_, List.mem_append_right _ List.mem_cons_self, apart _ (by simp), List.mem_cons_self⟩
  | array item =>
    cases List.mem_singleton.1 inside
    exact ⟨_, List.mem_cons_of_mem _ List.mem_cons_self, apart _ (by simp), List.mem_cons_self⟩
  | union members =>
    rw [shapeFields, memberFields_eq]
    exact ⟨_, List.mem_cons_self, apart _ (by simp), List.mem_map_of_mem inside⟩
  | linked declaration side => exact absurd rfl (own _ _)
  | _ => cases inside

end Shape

-- A schema says of instances what a node does, whatever else it may say.
def Node.Renders (n : Node) (s : Json) : Prop :=
  ∃ fields, s = .object fields ∧
    fields.filter (isEssential ·.1) = shapeFields .definitions n.core.annotations.pattern n.core.shape

namespace Node

theorem renders_written (n : Node) : n.Renders (n.written .definitions) :=
  ⟨_, rfl, (n.fields_wraps .definitions).essential⟩

theorem Renders.side {n declaration side : Node} (renders : n.Renders s)
    (shape : n.shape = .linked declaration side) : side.Renders s := by
  unfold Renders at renders ⊢
  rwa [core_linked shape] at renders

section
variable {names : List String} {n : Node} {s : Json} (renders : n.Renders s) (orderly : n.Orderly names)
include renders

theorem Renders.states_of_mem (member : (key, value) ∈ shapeFields .definitions n.core.annotations.pattern n.core.shape) :
    s.States (.ofKey key) value := by
  obtain ⟨fields, rfl, essential⟩ := renders
  rw [← essential] at member
  exact ⟨fields, key, rfl, (List.mem_filter.1 member).1, rfl⟩

include orderly

theorem Renders.states {name : KeywordName} (stated : s.States name value) (essential : name.isIdle = false) :
    n.core.shape.States n.core.annotations.pattern name value := by
  obtain ⟨fields, same, chosen⟩ := renders
  cases same
  obtain ⟨_, key, ⟨⟩, member, rfl⟩ := stated
  have field : (key, value) ∈ fields.filter (isEssential ·.1) := List.mem_filter.2 ⟨member, by
    unfold isEssential
    rw [essential]
    rfl⟩
  exact Shape.states_of_mem n.core_own orderly.core.here.distinct _ (chosen ▸ field)

theorem Renders.reference (stated : s.States .reference value) :
    ∃ name, n.core.shape = .reference name ∧ value = .string (Container.definitions.pointer name) := by
  have states := renders.states orderly stated rfl
  generalize n.core.shape = shape at states
  cases states with
  | reference => exact ⟨_, rfl, rfl⟩

theorem Renders.pattern (stated : s.States .pattern value) : ∃ text ∈ n.core.ownPatterns, value = .string text := by
  have states := renders.states orderly stated rfl
  unfold ownPatterns
  generalize n.core.annotations.pattern = pattern at states
  generalize n.core.shape = shape at states
  cases states with
  | pattern set => exact ⟨_, Option.mem_toList.2 set, rfl⟩

theorem Renders.anyOf (stated : s.States .anyOf value) :
    ∃ members, n.core.shape = .union members ∧ value = .array (members.map (Node.written .definitions)) := by
  have states := renders.states orderly stated rfl
  generalize n.core.shape = shape at states
  cases states with
  | anyOf => exact ⟨_, rfl, rfl⟩

theorem Renders.lone {name : KeywordName} (reference : s.States .reference target) (stated : s.States name value) :
    name = .reference ∨ name.isIdle := by
  obtain ⟨other, shape, -⟩ := renders.reference orderly reference
  obtain ⟨fields, same, chosen⟩ := renders
  cases same
  obtain ⟨_, key, ⟨⟩, member, rfl⟩ := stated
  cases idle : (KeywordName.ofKey key).isIdle with
  | true => exact .inr rfl
  | false =>
    have field : (key, value) ∈ fields.filter (isEssential ·.1) := List.mem_filter.2 ⟨member, by
      unfold isEssential
      rw [idle]
      rfl⟩
    rw [chosen, shape] at field
    cases List.mem_singleton.1 field
    exact .inl rfl

omit orderly in
theorem Renders.named {name : String} (shape : n.core.shape = .reference name) :
    s.States .reference (.string (Container.definitions.pointer name)) := by
  have field : ("$ref", Json.string (Container.definitions.pointer name)) ∈
      shapeFields .definitions n.core.annotations.pattern n.core.shape := by
    rw [shape]
    exact List.mem_cons_self
  exact renders.states_of_mem field

omit orderly in
theorem Renders.ownPattern (listed : text ∈ n.core.ownPatterns) : s.States .pattern (.string text) := by
  unfold ownPatterns at listed
  split at listed
  · rename_i shape
    have field : ("pattern", Json.string text) ∈ shapeFields .definitions n.core.annotations.pattern n.core.shape := by
      rw [shape, Option.mem_toList.1 listed]
      exact List.mem_cons_of_mem _ List.mem_cons_self
    exact renders.states_of_mem field
  · cases listed

theorem Renders.under {name : KeywordName} (stated : s.States name value) (member : t ∈ Json.schemasUnder name value)
    (other : name ≠ .definitions) : (∃ b, t = .bool b) ∨ ∃ c ∈ n.inner, t = c.written .definitions := by
  cases idle : name.isIdle with
  | true => cases name <;> first | exact absurd idle Bool.false_ne_true | exact absurd rfl other | cases member
  | false => exact (renders.states orderly stated idle).under member

theorem Renders.contains (inside : c ∈ n.inner) : s.Contains (c.written .definitions) := by
  obtain ⟨⟨key, value⟩, field, other, member⟩ := Shape.exists_field n.core_own orderly.core.here.distinct inside
  exact ⟨_, value, other, renders.states_of_mem field, member⟩

end

end Node
end TwinShape
