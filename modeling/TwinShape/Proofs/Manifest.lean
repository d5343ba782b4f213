import TwinShape.Manifest
import TwinShape.Proofs.Agreement

namespace TwinShape

namespace Node

theorem shape_annotate (n : Node) (what : String) (change : Annotations → Annotations) :
    (n.annotate what change).shape = n.shape := by
  unfold annotate
  split <;> rfl

theorem shape_title (n : Node) (text : String) : (n.title text).shape = n.shape := n.shape_annotate _ _
theorem shape_description (n : Node) (text : String) : (n.description text).shape = n.shape := n.shape_annotate _ _
theorem shape_addExample (n : Node) (j : Json) : (n.addExample j).shape = n.shape := n.shape_annotate _ _
theorem shape_deprecated (n : Node) (note : String) : (n.deprecated note).shape = n.shape := n.shape_annotate _ _
theorem shape_comment (n : Node) (text : String) : (n.comment text).shape = n.shape := n.shape_annotate _ _
theorem shape_onlyIn (n : Node) (variant : Variant) : (n.onlyIn variant).shape = n.shape := rfl

theorem shape_pattern (n : Node) (text : String) : (n.pattern text).shape = n.shape := by
  unfold pattern
  split <;> rfl

theorem shape_optional (n : Node) : n.optional.shape = n.shape := by
  unfold optional
  split <;> rfl

end Node

namespace Manifest

theorem shape_given {change : Node → β → Node} (keeps : ∀ n b, (change n b).shape = n.shape) (argument : Option β)
    (n : Node) :
    (given change argument n).shape = n.shape := by
  cases argument with
  | none => rfl
  | some b => exact keeps n b

theorem Details.shape_apply (d : Details) (n : Node) : (d.apply n).shape = n.shape := by
  have examples (n : Node) : (d.examples.foldl Node.addExample n).shape = n.shape := by
    induction d.examples generalizing n with
    | nil => rfl
    | cons j rest ih => exact (ih _).trans (n.shape_addExample j)
  have texts : (given Node.pattern d.pattern (given Node.comment d.comment (given Node.deprecated d.deprecated
      (d.examples.foldl Node.addExample (given Node.description d.description (given Node.title d.title n)))))).shape = n.shape := by
    rw [shape_given Node.shape_pattern, shape_given Node.shape_comment, shape_given Node.shape_deprecated, examples,
      shape_given Node.shape_description, shape_given Node.shape_title]
  unfold Details.apply
  refine (shape_given Node.shape_onlyIn _ _).trans ?_
  cases d.default with
  | some value => exact texts
  | none =>
    cases d.optional with
    | true => exact (Node.shape_optional _).trans texts
    | false => exact texts

variable {fields : Fields}

theorem nodeAt?_record (read : nodeAt? inside mark (.object fields) = some n) :
    ∃ k kind details n₀, required? "kind" fields = some k ∧ Kind.ofJson? k.val = some kind ∧ ofKind? mark fields kind = some n₀ ∧
      n = Details.apply details n₀ := by
  rw [nodeAt?] at read
  obtain ⟨k, named, read⟩ := Option.bind_eq_some_iff.1 read
  obtain ⟨details, -, read⟩ := Option.bind_eq_some_iff.1 read
  obtain ⟨kind, known, read⟩ := Option.bind_eq_some_iff.1 read
  obtain ⟨n₀, made, read⟩ := Option.bind_eq_some_iff.1 read
  cases read
  exact ⟨k, kind, details, n₀, named, known, made, rfl⟩

structure States (fields : Fields) (kind : Kind) (key : String) (value : Json) : Prop where
  kind_eq : (required? "kind" fields).bind (Kind.ofJson? ·.val) = some kind
  value_eq : (required? key fields).map (·.val) = some value

theorem States.made (states : States fields kind key value) (read : nodeAt? inside mark (.object fields) = some n) :
    ∃ n₀ smaller, ofKind? mark fields kind = some n₀ ∧ n.shape = n₀.shape ∧ required? key fields = some ⟨value, smaller⟩ := by
  obtain ⟨k, kind', details, n₀, named, known, made, rfl⟩ := nodeAt?_record read
  have same := states.kind_eq
  rw [named] at same
  cases known.symm.trans same
  obtain ⟨⟨j, smaller⟩, held, rfl⟩ := Option.map_eq_some_iff.1 states.value_eq
  exact ⟨n₀, smaller, made, details.shape_apply n₀, held⟩

theorem States.enumeration (states : States fields .enumeration "values" (.array vs))
    (read : nodeAt? inside mark (.object fields) = some n) :
    ∃ values naming, vs.mapM Literal.ofJson? = some values ∧ n.shape = .enumeration values naming := by
  obtain ⟨n₀, smaller, made, shape, held⟩ := states.made read
  rw [ofKind?] at made
  obtain ⟨_, same, made⟩ := Option.bind_eq_some_iff.1 made
  cases held.symm.trans same
  obtain ⟨values, listed, made⟩ := Option.bind_eq_some_iff.1 made
  obtain ⟨real, -, made⟩ := Option.bind_eq_some_iff.1 made
  refine ⟨values, ?_⟩
  cases real with
  | false =>
    cases made
    exact ⟨none, listed, shape⟩
  | true =>
    cases made
    exact ⟨some ⟨mark, Literal.pascalCase⟩, listed, shape⟩

theorem node?_plain {key name : String} {value : Json} (named : Kind.ofJson? (.string name) = some kind)
    (silent : details? false [("kind", .string name), (key, value)] = some ⟨none, none, [], none, none, none, false, none, none⟩)
    (other : key ≠ "kind") (made : ofKind? mark [("kind", .string name), (key, value)] kind = some n) :
    node? mark (.object [("kind", .string name), (key, value)]) = some n := by
  have listed : required? "kind" [("kind", .string name), (key, value)] = some ⟨.string name, by simp; omega⟩ := by
    unfold required? field?
    rw [if_pos rfl, if_neg (by simpa using other.symm)]
    rfl
  rw [node?, nodeAt?, listed]
  dsimp only [Bind.bind, Option.bind]
  rw [silent]
  dsimp only
  rw [named]
  dsimp only
  rw [made]
  rfl

theorem node?_constant (read : Literal.ofJson? v = some l) (mark : Mark) :
    node? mark (.object [("kind", .string "const"), ("value", v)]) = some (Node.constantOf l) := by
  refine node?_plain rfl rfl (by decide) ?_
  have value : required? "value" [("kind", .string "const"), ("value", v)] = some ⟨v, by simp; omega⟩ := rfl
  rw [ofKind?, value]
  dsimp only [Bind.bind, Option.bind]
  rw [read]

theorem node?_enumeration (read : vs.mapM Literal.ofJson? = some values) (mark : Mark) :
    node? mark (.object [("kind", .string "enum"), ("values", .array vs)]) = some (Node.enumOf values) := by
  refine node?_plain rfl rfl (by decide) ?_
  have listed : required? "values" [("kind", .string "enum"), ("values", .array vs)] = some ⟨.array vs, by simp; omega⟩ := rfl
  have unnamed : orElse? "realEnum" false flag? [("kind", .string "enum"), ("values", .array vs)] = some false := rfl
  rw [ofKind?, listed]
  dsimp only [Bind.bind, Option.bind]
  rw [literals?, read]
  dsimp only
  rw [unnamed]
  rfl

end Manifest
end TwinShape
