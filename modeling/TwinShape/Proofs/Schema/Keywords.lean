import TwinShape.Proofs.Schema.Acceptance
import TwinShape.Proofs.Schema.Fields

namespace TwinShape

namespace Table
variable {p : String → Bool}

theorem filter_set (t : Table α) (key : String) (a : α) :
    (t.set key a).filter (p ·.1) = if p key then Table.set (t.filter (p ·.1)) key a else t.filter (p ·.1) := by
  induction t with
  | nil => by_cases chosen : p key <;> simp [set, chosen]
  | cons entry rest ih =>
    obtain ⟨k, b⟩ := entry
    by_cases same : k = key
    · subst same
      by_cases chosen : p k <;> simp [set, chosen]
    · rw [set, if_neg same]
      by_cases chosen : p k <;> by_cases chosen' : p key <;>
        simp_all [set]

theorem filter_setAll (t : Table α) (entries : List (String × α)) :
    (t.setAll entries).filter (p ·.1) = Table.setAll (t.filter (p ·.1)) (entries.filter (p ·.1)) := by
  induction entries generalizing t with
  | nil => rfl
  | cons entry rest ih =>
    change ((t.set entry.1 entry.2).setAll rest).filter _ = _
    rw [ih, filter_set, List.filter_cons]
    by_cases chosen : p entry.1
    · rw [if_pos chosen, if_pos chosen]
      rfl
    · rw [if_neg chosen, if_neg chosen]

theorem get?_filter {t : Table α} (chosen : p key) : Table.get? (t.filter (p ·.1)) key = t.get? key := by
  induction t with
  | nil => rfl
  | cons entry rest ih =>
    obtain ⟨k, a⟩ := entry
    rw [get?_cons, List.filter_cons]
    by_cases same : key = k
    · subst same
      rw [if_pos chosen, get?_cons, if_pos rfl, if_pos rfl]
    · rw [if_neg same]
      by_cases chosen' : p k
      · rw [if_pos chosen', get?_cons, if_neg same, ih]
      · rw [if_neg chosen', ih]

theorem setAll_fresh {t : Table α} {entries : List (String × α)} (distinct : (Table.keys (t ++ entries)).Nodup) :
    t.setAll entries = t ++ entries := by
  induction entries generalizing t with
  | nil => exact (List.append_nil t).symm
  | cons entry rest ih =>
    obtain ⟨key, a⟩ := entry
    have fresh : key ∉ t.keys := by
      intro member
      unfold keys at distinct member
      rw [List.map_append] at distinct
      exact (List.nodup_append.1 distinct).2.2 key member key List.mem_cons_self rfl
    change (t.set key a).setAll rest = _
    rw [set_fresh fresh, ih, List.append_assoc]
    · rfl
    · rw [List.append_assoc]
      exact distinct

theorem ofEntries_distinct {entries : List (String × α)} (distinct : (Table.keys entries).Nodup) :
    Table.ofEntries entries = entries := setAll_fresh (t := []) distinct

end Table

-- Keywords that say something about instances.
def isEssential (key : String) : Bool := !(KeywordName.ofKey key).isIdle

-- Fields that say the same about instances as these keywords, and nothing wrong beside.
structure Wraps (fields keywords : List (String × Json)) : Prop where
  distinct : (Table.keys fields).Nodup
  essential : fields.filter (isEssential ·.1) = keywords
  harmless : ∀ f ∈ fields, isEssential f.1 = false → (KeywordName.ofKey f.1).Takes f.2

-- Fields that are put around a schema for its readers.
inductive IsAnnotation : String × Json → Prop
  | title (text : String) : IsAnnotation ("title", .string text)
  | description (text : String) : IsAnnotation ("description", .string text)
  | examples (values : List Json) : IsAnnotation ("examples", .array values)
  | default (value : Json) : IsAnnotation ("default", value)
  | deprecated (b : Bool) : IsAnnotation ("deprecated", .bool b)

theorem IsAnnotation.idle {f : String × Json} (extra : IsAnnotation f) :
    isEssential f.1 = false ∧ (KeywordName.ofKey f.1).Takes f.2 := by
  cases extra with
  | title text | description text => exact ⟨rfl, text, rfl⟩
  | examples values => exact ⟨rfl, values, rfl⟩
  | default => exact ⟨rfl, trivial⟩
  | deprecated b => exact ⟨rfl, b, rfl⟩

theorem Node.isAnnotation_of_heading {n : Node} (member : f ∈ n.heading) : IsAnnotation f := by
  unfold Node.heading at member
  rcases List.mem_append.1 member with member | member <;> obtain ⟨text, _, rfl⟩ := List.mem_map.1 member
  · exact .title text
  · exact .description text

theorem Node.isAnnotation_of_remarks {n : Node} (member : f ∈ n.remarks) : IsAnnotation f := by
  unfold Node.remarks at member
  rcases List.mem_append.1 member with member | member
  · rcases List.mem_append.1 member with member | member
    · split at member
      · cases member
      · cases List.mem_singleton.1 member
        exact .examples _
    · obtain ⟨value, _, rfl⟩ := List.mem_map.1 member
      exact .default value
  · obtain ⟨note, _, rfl⟩ := List.mem_map.1 member
    exact .deprecated true

theorem Node.mem_annotated {n : Node} {fields : List (String × Json)} (member : f ∈ n.annotated fields) :
    IsAnnotation f ∨ f ∈ fields := by
  rcases Table.mem_setAll member with remark | member
  · exact .inl (isAnnotation_of_remarks remark)
  · exact (Table.mem_setAll member).symm.imp_left isAnnotation_of_heading

theorem Node.heading_distinct (n : Node) : (Table.keys n.heading).Nodup := by
  unfold Node.heading Table.keys
  cases n.annotations.title <;> cases n.annotations.description <;> simp

theorem Node.annotated_distinct (n : Node) (fields : List (String × Json)) : (Table.keys (n.annotated fields)).Nodup :=
  Table.nodup_keys_setAll (Table.nodup_keys_setAll n.heading_distinct _) _

theorem Node.annotated_filter (n : Node) {fields : List (String × Json)} (distinct : (Table.keys fields).Nodup)
    {p : String → Bool}
    (idle : ∀ f, IsAnnotation f → p f.1 = false) : (n.annotated fields).filter (p ·.1) = fields.filter (p ·.1) := by
  have none_ : ∀ annotations : List (String × Json), (∀ f ∈ annotations, IsAnnotation f) → annotations.filter (p ·.1) = [] := by
    intro annotations each
    exact List.filter_eq_nil_iff.2 fun f member => Bool.eq_false_iff.1 (idle f (each f member))
  unfold Node.annotated
  rw [Table.filter_setAll, Table.filter_setAll, none_ _ fun f => Node.isAnnotation_of_remarks, none_ _ fun f => Node.isAnnotation_of_heading]
  exact Table.ofEntries_distinct ((List.filter_sublist.map _).nodup distinct)

theorem Node.annotated_essential (n : Node) {fields : List (String × Json)} (distinct : (Table.keys fields).Nodup) :
    (n.annotated fields).filter (isEssential ·.1) = fields.filter (isEssential ·.1) :=
  n.annotated_filter distinct fun _ extra => extra.idle.1

theorem Node.annotated_wraps (n : Node) {fields keywords : List (String × Json)} (wraps : Wraps fields keywords) :
    Wraps (n.annotated fields) keywords := by
  refine ⟨n.annotated_distinct fields, (n.annotated_essential wraps.distinct).trans wraps.essential, ?_⟩
  intro f member idle
  rcases Node.mem_annotated member with extra | inner
  · exact extra.idle.2
  · exact wraps.harmless f inner idle

theorem Wraps.self {keywords : List (String × Json)} (distinct : (Table.keys keywords).Nodup)
    (essential : ∀ f ∈ keywords, isEssential f.1 = true) : Wraps keywords keywords := by
  refine ⟨distinct, List.filter_eq_self.2 essential, fun f member idle => ?_⟩
  rw [essential f member] at idle
  cases idle

def shapeKeys : List String :=
  ["type", "properties", "required", "additionalProperties", "items", "anyOf", "enum", "const", "pattern", "$ref"]

theorem shapeFields_keys (c : Container) (pattern : Option String) {shape : Shape Node}
    (own : ∀ declaration schema, shape ≠ .linked declaration schema) :
    (Table.keys (shapeFields c pattern shape)).Sublist shapeKeys := by
  unfold Table.keys shapeKeys
  cases shape with
  | object o =>
    obtain ⟨properties, additional, parents⟩ := o
    unfold shapeFields objectKeywords
    dsimp only
    split <;> split <;> simp
  | string => cases pattern <;> simp [shapeFields]
  | linked declaration schema => exact absurd rfl (own declaration schema)
  | _ => simp [shapeFields]

theorem shapeFields_wraps_self (c : Container) (pattern : Option String) {shape : Shape Node}
    (own : ∀ declaration schema, shape ≠ .linked declaration schema) :
    Wraps (shapeFields c pattern shape) (shapeFields c pattern shape) := by
  have keys := shapeFields_keys c pattern own
  have all : ∀ key ∈ shapeKeys, isEssential key = true := by decide
  exact .self (keys.nodup (by decide)) fun f member => all f.1 (keys.subset (List.mem_map_of_mem member))

end TwinShape
