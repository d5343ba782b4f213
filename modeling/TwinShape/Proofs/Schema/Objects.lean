import TwinShape.Proofs.Schema.Finished

namespace TwinShape

def objectFields (entries : List (String × Json)) (names : List String) (additional : Json) : List (String × Json) :=
  [("type", .string "object")] ++ (if entries.isEmpty then [] else [("properties", .object entries)]) ++
    (if names.isEmpty then [] else [("required", Json.strings names)]) ++ [("additionalProperties", additional)]

theorem objectKeywords_eq {properties : List (String × Bool × Json)} (distinct : (properties.map (·.1)).Nodup)
    (additional : Json) : objectKeywords properties additional =
      objectFields (properties.map fun p => (p.1, p.2.2)) ((properties.filter (!·.2.1)).map (·.1)) additional := by
  have keys : Table.keys (properties.map fun p => (p.1, p.2.2)) = properties.map (·.1) := by
    unfold Table.keys
    rw [List.map_map]
    rfl
  unfold objectKeywords
  rw [Table.ofEntries_distinct (keys ▸ distinct)]
  rfl

def Json.isString (key : String) : Json → Bool
  | .string text => text == key
  | _ => false

def Json.needsKey (key : String) : Json → Bool
  | .object fields =>
    match Table.get? fields "required" with
    | some (.array names) => names.any (Json.isString key)
    | _ => false
  | _ => false

def Json.isClosed : Json → Bool
  | .object fields =>
    match Table.get? fields "additionalProperties" with
    | some (.bool false) => true
    | _ => false
  | _ => false

theorem Node.get?_annotated (n : Node) {keywords : List (String × Json)} (wraps : Wraps keywords keywords)
    (essential : isEssential key) : Table.get? (n.annotated keywords) key = Table.get? keywords key := by
  rw [← Table.get?_filter (p := isEssential) essential, (n.annotated_wraps wraps).essential]

section
variable (entries : List (String × Json)) (names : List String) (additional : Json)

theorem objectFields_wraps : Wraps (objectFields entries names additional) (objectFields entries names additional) := by
  have keys : (Table.keys (objectFields entries names additional)).Sublist shapeKeys := by
    unfold Table.keys shapeKeys objectFields
    cases entries <;> cases names <;> simp
  have all : ∀ key ∈ shapeKeys, isEssential key = true := by decide
  exact .self (keys.nodup (by decide)) fun f member => all f.1 (keys.subset (List.mem_map_of_mem member))

theorem objectFields_properties : Table.get? (objectFields entries names additional) "properties" =
    if entries.isEmpty then none else some (.object entries) := by
  cases entries <;> cases names <;> rfl

theorem objectFields_required : Table.get? (objectFields entries names additional) "required" =
    if names.isEmpty then none else some (Json.strings names) := by
  cases entries <;> cases names <;> rfl

theorem objectFields_additional :
    Table.get? (objectFields entries names additional) "additionalProperties" = some additional := by
  cases entries <;> cases names <;> rfl

variable {entries names additional} in
theorem Json.declaredKeys_eq {fields : List (String × Json)}
    (found : Table.get? fields "properties" = if entries.isEmpty then none else some (.object entries)) :
    (Json.object fields).declaredKeys = Table.keys entries := by
  rw [Json.declaredKeys, found]
  cases entries <;> rfl

variable {entries names additional} in
theorem objectFields_iff {P : String × Json → Prop} : (∀ f ∈ objectFields entries names additional, P f) ↔
    P ("type", .string "object") ∧ (entries ≠ [] → P ("properties", .object entries)) ∧
      (names ≠ [] → P ("required", Json.strings names)) ∧ P ("additionalProperties", additional) := by
  cases entries <;> cases names <;> simp [objectFields]

end

theorem keys_properties {value : Property Node → α} (ps : List (Property Node)) :
    Table.keys (ps.map fun p => (p.name, value p)) = ps.map (·.name) := by
  unfold Table.keys
  rw [List.map_map]
  rfl

theorem Node.exists_fields (c : Container) {n : Node}
    (plain : ∀ declaration schema, n.shape ≠ .raw declaration schema) :
    ∃ fields, n.schema c = .object fields := by
  have keywords : ∃ fields, schemaPart c n.annotations.pattern n.shape = .keywords fields := by
    cases shape : n.shape with
    | raw declaration schema => exact absurd shape (plain _ _)
    | object o =>
      rw [schemaPart]
      exact ⟨_, rfl⟩
    | linked declaration schema =>
      rw [schemaPart]
      split
      · exact ⟨_, rfl⟩
      · exact ⟨_, rfl⟩
    | _ => exact ⟨_, rfl⟩
  obtain ⟨fields, same⟩ := keywords
  rw [Node.schema_eq, same]
  exact ⟨_, rfl⟩

section
variable (c : Container) {n : Node} {o : ObjectShape Node} (shape : n.shape = .object o)
  (distinct : (o.properties.map (·.name)).Nodup)
include shape distinct

theorem Node.schema_object : n.schema c = .object
    (n.annotated (objectFields (o.properties.map fun p => (p.name, p.value.schema c))
    ((o.properties.filter fun p => !p.value.isOptional).map (·.name)) (finishedAdditional c o.additional))) := by
  obtain ⟨properties, additional, parents⟩ := o
  have entries : (finishedProperties c properties).map (fun p => (p.1, p.2.2)) =
      properties.map fun p => (p.name, p.value.schema c) := by
    rw [finishedProperties_eq, List.map_map]
    rfl
  have names : ((finishedProperties c properties).filter (!·.2.1)).map (·.1) =
      (properties.filter fun p => !p.value.isOptional).map (·.name) := by
    rw [finishedProperties_eq, List.filter_map, List.map_map]
    rfl
  have keys : ((finishedProperties c properties).map (·.1)).Nodup := by
    rw [finishedProperties_eq, List.map_map]
    exact distinct
  rw [Node.schema_eq, shape, schemaPart, objectKeywords_eq keys, entries, names, Node.annotate_keywords]

theorem Node.schema_declaredKeys : (n.schema c).declaredKeys = o.properties.map (·.name) := by
  rw [Node.schema_object c shape distinct]
  have found := objectFields_properties (o.properties.map fun p => (p.name, p.value.schema c))
    ((o.properties.filter fun p => !p.value.isOptional).map (·.name)) (finishedAdditional c o.additional)
  rw [← n.get?_annotated (objectFields_wraps _ _ _) rfl] at found
  exact (Json.declaredKeys_eq found).trans (keys_properties o.properties)

theorem Node.schema_needsKey (key : String) :
    (n.schema c).needsKey key ↔ ∃ p ∈ o.properties, p.name = key ∧ p.value.isOptional = false := by
  rw [Node.schema_object c shape distinct, Json.needsKey]
  rw [n.get?_annotated (objectFields_wraps _ _ _) rfl, objectFields_required]
  have listed : key ∈ (o.properties.filter fun p => !p.value.isOptional).map (·.name) ↔
      ∃ p ∈ o.properties, p.name = key ∧ p.value.isOptional = false := by
    rw [List.mem_map]
    refine exists_congr fun p => ?_
    rw [List.mem_filter, Bool.not_eq_true', and_assoc, and_comm (a := p.value.isOptional = false)]
  rw [← listed]
  generalize (o.properties.filter fun p => !p.value.isOptional).map (·.name) = names
  cases names with
  | nil => exact iff_of_false Bool.false_ne_true List.not_mem_nil
  | cons first rest =>
    change ((first :: rest).map Json.string).any (Json.isString key) = true ↔ _
    rw [List.any_map, List.any_eq_true]
    refine ⟨fun found => ?_, fun member => ⟨key, member, beq_self_eq_true key⟩⟩
    obtain ⟨name, member, same⟩ := found
    exact eq_of_beq same ▸ member

theorem Node.schema_isClosed (plain : ∀ m ∈ o.additional.nodes, ∀ declaration schema, m.shape ≠ .raw declaration schema) :
    (n.schema c).isClosed ↔ o.additional = .forbidden := by
  rw [Node.schema_object c shape distinct, Json.isClosed]
  rw [n.get?_annotated (objectFields_wraps _ _ _) rfl, objectFields_additional]
  cases additional : o.additional with
  | forbidden => exact iff_of_true rfl rfl
  | allowed =>
    refine iff_of_false Bool.false_ne_true fun same => ?_
    cases same
  | shape m =>
    rw [additional] at plain
    obtain ⟨fields, same⟩ := Node.exists_fields c (plain m List.mem_cons_self)
    rw [finishedAdditional, same]
    refine iff_of_false Bool.false_ne_true fun same => ?_
    cases same

end
end TwinShape
