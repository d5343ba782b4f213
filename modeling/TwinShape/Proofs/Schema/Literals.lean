import TwinShape.Proofs.Decimal.Nearest
import TwinShape.Proofs.Manifest
import TwinShape.Proofs.Schema.Defaults
import TwinShape.Proofs.Schema.Validation

namespace TwinShape
open Binary64

namespace Json

def IsScalar : Json → Prop
  | .array _ | .object _ => False
  | _ => True

-- A whole number that needs all of 64 bits and is no double.
def Strays : Json → Prop
  | .number (.whole i) => 9223372036854775808 ≤ i.value ∧ ¬2048 ∣ i.value
  | _ => False

theorem IsScalar.settled {v : Json} (scalar : v.IsScalar) : v.Settled := by
  cases v with
  | null => exact .null
  | bool b => exact .bool b
  | number n => exact .number n
  | string s => exact .string s
  | array | object => exact scalar.elim

end Json

namespace Literal
variable {l : Literal} {v : Json}

theorem ofJson?_scalar (scalar : v.IsScalar) : ∃ l, ofJson? v = some l := by
  cases v with
  | null | bool | string => exact ⟨_, rfl⟩
  | number n =>
    cases n with
    | float => exact ⟨_, rfl⟩
    | whole i =>
      rw [ofJson?]
      split <;> exact ⟨_, rfl⟩
  | array | object => exact scalar.elim

theorem scalar_of_ofJson? (read : ofJson? v = some l) : v.IsScalar := by
  cases v with
  | array | object => cases read
  | _ => trivial

-- What a literal is read from, up to what no double tells apart.
theorem ofJson?_cases (read : ofJson? v = some l) :
    l.toJson = v ∨ ∃ i : Whole64, v = .number (.whole i) ∧ 9223372036854775808 ≤ i.value ∧ l.toJson = .number (.float (Number.whole i).nearest) := by
  cases v with
  | null | bool | string =>
    cases read
    exact .inl rfl
  | number n =>
    cases n with
    | float x =>
      cases read
      exact .inl rfl
    | whole i =>
      rw [ofJson?] at read
      split at read
      · cases read
        exact .inl rfl
      · cases read
        exact .inr ⟨i, rfl, by omega, rfl⟩
  | array | object => cases read

theorem sameValue_self (scalar : v.IsScalar) : v.sameValue v = true := by
  cases v with
  | null => rfl
  | bool | string | number => exact beq_self_eq_true _
  | array | object => exact scalar.elim

theorem not_strays (same : l.toJson.sameValue v = true) : ¬v.Strays := by
  cases v with
  | number n =>
    cases n with
    | float => exact id
    | whole i =>
      rintro ⟨large, odd⟩
      cases l with
      | int j =>
        have equal : j.value * unitsPerOne = i.value * unitsPerOne := beq_iff_eq.1 same
        have := Int.eq_of_mul_eq_mul_right (Int.natCast_ne_zero.2 (Nat.ne_of_gt unitsPerOne_pos)) equal
        have := j.lt_high
        omega
      | float x => exact odd (Number.dvd_of_double large (beq_iff_eq.1 same))
      | null | bool | string => cases same
  | null | bool | string | array | object => exact id

theorem sameValue_iff (read : ofJson? v = some l) : l.toJson.sameValue v = true ↔ ¬v.Strays := by
  refine ⟨not_strays, fun kept => ?_⟩
  rcases ofJson?_cases read with same | ⟨i, rfl, large, same⟩
  · rw [same]
    exact sameValue_self (scalar_of_ofJson? read)
  · rw [same]
    refine beq_iff_eq.2 (Number.nearest_units_of_dvd large ?_)
    by_contra odd
    exact kept ⟨large, odd⟩

-- A constant on its own is compared by nearest doubles.
theorem meetsConstant_read (read : ofJson? v = some l) : meetsConstant l.toJson v = true := by
  have near : ∀ a b : Number, a.nearest.units = b.nearest.units → nearlySame a b = true := by
    intro a b same
    rw [nearlySame, same, Int.sub_self]
    exact decide_eq_true (by decide +kernel)
  rcases ofJson?_cases read with same | ⟨i, rfl, -, same⟩
  · rw [same]
    cases v with
    | number n => exact near n n rfl
    | _ => exact sameValue_self (scalar_of_ofJson? read)
  · rw [same]
    exact near _ _ rfl

theorem exists_of_mapM {values : List Literal} {vs : List Json} (read : vs.mapM ofJson? = some values)
    (member : v ∈ vs) :
    ∃ l ∈ values, ofJson? v = some l := by
  induction vs generalizing values with
  | nil => cases member
  | cons w vs ih =>
    rw [List.mapM_cons] at read
    obtain ⟨first, here, read⟩ := Option.bind_eq_some_iff.1 read
    obtain ⟨rest, there, read⟩ := Option.bind_eq_some_iff.1 read
    cases read
    rcases List.mem_cons.1 member with rfl | member
    · exact ⟨first, List.mem_cons_self, here⟩
    · obtain ⟨l, listed, read⟩ := ih there member
      exact ⟨l, List.mem_cons_of_mem _ listed, read⟩

-- Whether one of the values of a list is met is up to how that one was read, whatever else is listed.
theorem listed_iff {values : List Literal} {vs : List Json} (read : vs.mapM ofJson? = some values) (member : v ∈ vs) :
    (∃ l ∈ values, l.toJson.sameValue v = true) ↔ ¬v.Strays := by
  constructor
  · rintro ⟨l, -, same⟩
    exact not_strays same
  · intro kept
    obtain ⟨l, listed, here⟩ := exists_of_mapM read member
    exact ⟨l, listed, (sameValue_iff here).2 kept⟩

end Literal

section
variable {p : PatternReading} {document : Json}

theorem accepts_keyword {fields : List (String × Json)} {key : String} {value : Json}
    (essential : fields.filter (isEssential ·.1) = [(key, value)]) :
    Accepts p document (.object fields) j ↔ Demands p document (Accepts p document) [(key, value)] (.ofKey key) value j := by
  rw [accepts_iff, accepting_essential essential]
  exact List.forall_mem_singleton

namespace Node
variable {n : Node} (c : Container)

theorem accepts_constant {l : Literal} (shape : n.shape = .constant l) :
    Accepts p document (n.schema c) j ↔ meetsConstant l.toJson j = true := by
  have written : n.schema c = .object (n.annotated [("const", l.toJson)]) := by
    rw [Node.schema_eq, shape]
    rfl
  have essential : (n.annotated [("const", l.toJson)]).filter (isEssential ·.1) = [("const", l.toJson)] :=
    n.annotated_essential (List.nodup_singleton "const")
  rw [written, accepts_keyword essential]
  exact Iff.rfl

theorem accepts_enumeration {values : List Literal} (shape : n.shape = .enumeration values naming) :
    Accepts p document (n.schema c) j ↔ ∃ l ∈ values, l.toJson.sameValue j = true := by
  have written : n.schema c = .object (n.annotated [("enum", .array (values.map Literal.toJson))]) := by
    rw [Node.schema_eq, shape]
    rfl
  have essential : (n.annotated [("enum", .array (values.map Literal.toJson))]).filter (isEssential ·.1) =
      [("enum", .array (values.map Literal.toJson))] := n.annotated_essential (List.nodup_singleton "enum")
  have any : (values.map Literal.toJson).any (·.sameValue j) = true ↔ ∃ l ∈ values, l.toJson.sameValue j = true := by
    rw [List.any_map, List.any_eq_true]
    rfl
  rw [written, accepts_keyword essential, ← any]
  refine ⟨?_, fun listed => ⟨_, rfl, listed⟩⟩
  rintro ⟨_, ⟨⟩, listed⟩
  exact listed

theorem patterns_leaf (leaf : n.shape.isLeaf) (other : n.shape ≠ .string) : n.patterns = [] := by
  rw [Node.patterns_eq, Node.ownPatterns]
  generalize n.shape = shape at leaf other
  cases shape with
  | object | array | union | reference | linked => cases leaf
  | string => exact absurd rfl other
  | _ => rfl

theorem Orderly.leaf_within {names : List String} (orderly : n.Orderly names) (leaf : n.shape.isLeaf) {s : Json}
    (inside : (n.written .definitions).Within s) : (∃ b, s = .bool b) ∨ s = n.written .definitions := by
  have own : ∀ declaration side, n.shape ≠ .linked declaration side := fun _ _ same => by
    rw [same] at leaf
    cases leaf
  have childless : n.inner = [] := by
    unfold Node.inner
    rw [core_other own]
    refine List.eq_nil_iff_forall_not_mem.2 fun c member => ?_
    have child := Shape.child_of_written member
    rw [Shape.children_leaf leaf] at child
    cases child
  induction inside with
  | refl => exact .inr rfl
  | tail _ step ih =>
    rcases ih with ⟨b, rfl⟩ | rfl
    · obtain ⟨_, _, ⟨_, _, ⟨⟩, _⟩, _⟩ := step
    · rcases orderly.holds step with bool | ⟨c, member, -⟩
      · exact .inl bool
      · rw [childless] at member
        cases member

theorem Orderly.leaf_unled {names : List String} (orderly : n.Orderly names) (leaf : n.shape.isLeaf) {value : Json} :
    ¬(n.written .definitions).States .reference value ∧ ¬(n.written .definitions).States .anyOf value := by
  have own : ∀ declaration side, n.shape ≠ .linked declaration side := fun _ _ same => by
    rw [same] at leaf
    cases leaf
  constructor
  · intro stated
    obtain ⟨name, shape, -⟩ := n.renders_written.reference orderly stated
    rw [core_other own] at shape
    rw [shape] at leaf
    cases leaf
  · intro stated
    obtain ⟨members, shape, -⟩ := n.renders_written.anyOf orderly stated
    rw [core_other own] at shape
    rw [shape] at leaf
    cases leaf

theorem Orderly.leaf_plain {names : List String} (orderly : n.Orderly names) (leaf : n.shape.isLeaf) :
    (n.written .definitions).Plain ∧ (n.written .definitions).Guarded := by
  refine ⟨⟨fun s inside => ?_, fun s name value inside stated => ?_, fun fields key value inside member other => ?_,
    fun s reference name value inside stated => ?_, fun s text inside stated => ?_⟩, fun s inside => ⟨_, fun t becomes => ?_⟩⟩
  · exact (orderly.leaf_within leaf inside).imp_right fun same => ⟨_, same, (n.fields_wraps .definitions).distinct⟩
  · rcases orderly.leaf_within leaf inside with ⟨b, rfl⟩ | rfl
    · obtain ⟨_, _, ⟨⟩, _⟩ := stated
    · obtain ⟨_, key, ⟨⟩, member, rfl⟩ := stated
      exact orderly.takes _ member
  · rcases orderly.leaf_within leaf inside with ⟨b, ⟨⟩⟩ | same
    cases same
    exact .inl (writtenKeys_known _ (n.fields_keys .definitions _ member) other)
  · rcases orderly.leaf_within leaf inside with ⟨b, rfl⟩ | rfl
    · obtain ⟨_, _, ⟨⟩, _⟩ := stated
    · exact absurd stated (orderly.leaf_unled leaf).1
  · rcases orderly.leaf_within leaf inside with ⟨b, rfl⟩ | rfl
    · obtain ⟨_, _, ⟨⟩, _⟩ := stated
    · exact absurd stated (orderly.leaf_unled leaf).1
  · rcases orderly.leaf_within leaf inside with ⟨b, rfl⟩ | rfl
    · rcases becomes with ⟨_, ⟨_, _, ⟨⟩, _⟩, _⟩ | ⟨_, ⟨_, _, ⟨⟩, _⟩, _⟩
    · rcases becomes with ⟨_, stated, _⟩ | ⟨_, stated, _⟩
      · exact absurd stated (orderly.leaf_unled leaf).2
      · exact absurd stated (orderly.leaf_unled leaf).1

theorem Orderly.leaf_usable {names : List String} (orderly : n.Orderly names) (leaf : n.shape.isLeaf)
    (other : n.shape ≠ .string) :
    (n.written .definitions).Usable p := by
  have unpatterned : ∀ (s : Json) text, (n.written .definitions).Within s → ¬s.States .pattern (.string text) := by
    intro s text inside stated
    rcases orderly.leaf_within leaf inside with ⟨b, rfl⟩ | rfl
    · obtain ⟨_, _, ⟨⟩, _⟩ := stated
    · obtain ⟨_, member, -⟩ := n.renders_written.pattern orderly stated
      have patterns := patterns_leaf leaf other
      rw [patterns_core] at patterns
      rw [(List.append_eq_nil_iff.1 patterns).1] at member
      cases member
  have used : ∀ s : Json, Relation.ReflTransGen (fun before after => before.Uses (n.written .definitions) after) (n.written .definitions) s →
      (n.written .definitions).Within s := by
    intro s path
    induction path with
    | refl => exact .refl
    | tail _ step ih =>
      rcases step with contains | ⟨text, stated, _⟩
      · exact ih.tail contains.holds
      · rcases orderly.leaf_within leaf ih with ⟨b, rfl⟩ | rfl
        · obtain ⟨_, _, ⟨⟩, _⟩ := stated
        · exact absurd stated (orderly.leaf_unled leaf).1
  exact ⟨fun _ s text inside stated => absurd stated (unpatterned s text inside),
    fun s text path stated => absurd stated (unpatterned s text (used s path))⟩

end Node
end

theorem Node.orderly_leaf {n : Node} (leaf : n.shape.isLeaf) (expressible : n.shape.isExpressible)
    (names : List String) : n.Orderly names := by
  have childless : n.children = [] := Shape.children_leaf leaf
  refine ⟨.unnamed expressible ?_ fun c inside => ?_, Node.each_iff.2 ⟨Shape.tidy_leaf leaf, fun c child => ?_⟩⟩
  · obtain ⟨shape, annotations, optionality, restriction, misuse⟩ := n
    cases shape with
    | reference => cases leaf
    | _ => rfl
  · have child : c ∈ n.children := Shape.child_of_written inside
    rw [childless] at child
    cases child
  · rw [childless] at child
    cases child

theorem Node.schema_written_leaf {n : Node} (leaf : n.shape.isLeaf) (expressible : n.shape.isExpressible) :
    n.schema .definitions = n.written .definitions := by
  refine Node.schema_eq_written .definitions (Node.each_iff.2 ⟨fun declaration schema same => ?_, fun c child => ?_⟩)
  · rw [same] at expressible
    cases expressible
  · have childless : n.children = [] := Shape.children_leaf leaf
    rw [childless] at child
    cases child

theorem madeOf_leaf {n : Node} (plain : isPlainName name) (leaf : n.shape.isLeaf)
    (expressible : n.shape.isExpressible) :
    MadeOf (Registry.schemaDocument (.rooted name) [(name, n.schema .definitions)]) name [(name, n)] := by
  refine ⟨fun other member => List.mem_singleton.1 member ▸ plain, fun other k found => ?_,
    ⟨[(name, some (n.written .definitions))], ⟨fun other => ?_, List.nodup_singleton _, List.forall_mem_nil _⟩, ?_⟩, List.mem_singleton_self _⟩
  · cases List.mem_singleton.1 (Table.mem_of_get? found)
    exact Node.orderly_leaf leaf expressible _
  · rw [Table.get?_cons, Table.get?_cons]
    split <;> rfl
  · rw [Node.schema_written_leaf leaf expressible]
    rfl

def Answers (condition : Prop) (verdict : Except Invalid Unit) : Prop :=
  (verdict = .ok () ↔ condition) ∧ ((∃ first rest, verdict = .error (.violated first rest)) ↔ ¬condition)

theorem validateAgainst_leaf {engine : SchemaEngine} {p : PatternReading} (lawful : engine.Lawful p) {n : Node}
    (plain : isPlainName name)
    (leaf : n.shape.isLeaf) (expressible : n.shape.isExpressible) (free : n.patterns = []) (settled : j.Settled) :
    ∃ verdict, validateAgainst engine (Registry.schemaDocument (.rooted name) [(name, n.schema .definitions)]) j = some verdict ∧
      Answers (Conforms p meetsConstant [(name, n)] n j) verdict := by
  have made := madeOf_leaf plain leaf expressible
  have usable : (Registry.schemaDocument (.rooted name) [(name, n.schema .definitions)]).Usable p :=
    made.usable_iff.2 (Registry.only_readable free)
  have accepts : Accepts p (Registry.schemaDocument (.rooted name) [(name, n.schema .definitions)])
      (Registry.schemaDocument (.rooted name) [(name, n.schema .definitions)]) j ↔ Conforms p meetsConstant [(name, n)] n j := by
    have here : Table.get? [(name, n)] name = some n := by rw [Table.get?_cons, if_pos rfl]
    rw [made.accepts_iff]
    refine ⟨?_, fun conforms => ⟨n, here, conforms⟩⟩
    rintro ⟨k, found, conforms⟩
    cases here.symm.trans found
    exact conforms
  obtain ⟨fields, same, sheet⟩ := made.sheet
  have bare : ∀ other k target, Table.get? [(name, n)] other = some k → k.Bare target → False := by
    intro other k target found
    cases List.mem_singleton.1 (Table.mem_of_get? found)
    exact Node.not_bare_leaf leaf
  have guarded := sheet.guarded (fun _ => ⟨_, fun _ never => never.elim⟩) bare
  rw [same] at usable accepts ⊢
  obtain ⟨verdict, ended⟩ := lawful.validates sheet.plain_document guarded settled
  have judged := lawful.judges sheet.plain_document settled ended
  exact ⟨verdict, ended, judged.ok_iff.trans ((and_iff_right usable).trans accepts),
    judged.violated_iff.trans ((and_iff_right usable).trans (not_congr accepts))⟩

namespace Registry
variable {r : Registry}

theorem Resolves.answer (resolves : r.Resolves name n) (referencing : String) (m : Memory) :
    ∃ m', r.resolveFrom referencing name m = (.ok ⟨n, resolves.1⟩, m') := by
  have asked := resolveFrom_asked (r := r) referencing name m
  revert asked
  rcases r.resolveFrom referencing name m with reply
  intro asked
  cases asked with
  | unknown missing => cases missing.symm.trans resolves.1
  | kept found _ | accepted found =>
    cases found.symm.trans resolves.1
    exact ⟨_, rfl⟩
  | rejected found _ flawed =>
    cases found.symm.trans resolves.1
    cases flawed.symm.trans resolves.2

theorem project_leaf {n : Node} (leaf : n.shape.isLeaf) (inside : n.restriction.includes v) (definition : String)
    (m : Memory) :
    r.project definition n v m = (.ok (some (n.rebuilt n.shape)), m) := by
  unfold project
  rw [projectNode_eq, if_pos inside, projectShape_leaf leaf]
  rfl

theorem schemaOf_leaf {n : Node} (leaf : n.shape.isLeaf) (writable : n.shape.isWritable) (s : SchemaScope) :
    schemaOf r s n = pure (n.schema s.container) := by
  apply schemaOf_finished
  generalize n.shape = shape at leaf writable
  cases shape with
  | object | array | union | reference | linked => cases leaf
  | imported => cases writable
  | raw declaration schema =>
    cases schema with
    | none => cases writable
    | some document => rw [schemaPartOf, schemaPart]
  | _ => rw [schemaPartOf, schemaPart]

theorem schema_leaf {n : Node} (leaf : n.shape.isLeaf) (c c' : Container) : n.schema c = n.schema c' := by
  rw [Node.schema_eq, Node.schema_eq]
  generalize n.shape = shape at leaf ⊢
  cases shape with
  | object | array | union | reference | linked => cases leaf
  | raw declaration schema => cases schema <;> rfl
  | _ => rfl

theorem collect_leaf {n : Node} (resolves : r.Resolves name n) (inside : n.restriction.includes .external)
    (leaf : n.shape.isLeaf)
    (writable : n.shape.isWritable) (c : Container) (m : Memory) :
    ∃ m', collect r ⟨c, [], ""⟩ name ⟨m, []⟩ = (.ok true, ⟨m', [(name, some ((n.rebuilt n.shape).schema c))]⟩) := by
  obtain ⟨m', resolved⟩ := resolves.answer name m
  have asked : SchemaDrafting.ask (r.resolve name) ⟨m, []⟩ = (.ok ⟨n, resolves.1⟩, ⟨m', []⟩) := by
    unfold SchemaDrafting.ask Inquiry.within resolve
    rw [resolved]
  have projected : SchemaDrafting.ask (r.project name n .external) ⟨m', []⟩ = (.ok (some (n.rebuilt n.shape)), ⟨m', []⟩) := by
    unfold SchemaDrafting.ask Inquiry.within
    rw [project_leaf leaf inside]
  refine ⟨m', ?_⟩
  rw [collect_eq, if_neg (by rintro (busy | taken) <;> contradiction), Inquiry.bind_ok asked, Inquiry.bind_ok projected]
  dsimp only
  rw [schemaOf_leaf (n := n.rebuilt n.shape) leaf writable]
  exact congrArg (fun slots => (Except.ok true, (⟨m', slots⟩ : SchemaDraft))) (if_pos rfl)

-- Asked for on its own, a definition gets a document with this schema, whatever is known and
-- whatever the document says besides.
def EmitsAlone (r : Registry) (name : String) (schema : Json) : Prop :=
  ∀ (options : SchemaOptions) (m : Memory), (∀ root ∈ options.root, root = name) →
    (r.schemaFor [name] options m).1 = .ok (schemaDocument options [(name, schema)])

theorem emitsAlone_leaf {n : Node} (resolves : r.Resolves name n) (inside : n.restriction.includes .external)
    (leaf : n.shape.isLeaf) (writable : n.shape.isWritable) (c : Container) : r.EmitsAlone name ((n.rebuilt n.shape).schema c) := by
  intro options m alone
  obtain ⟨m', first⟩ := collect_leaf resolves inside leaf writable options.container m
  rw [schema_leaf (n := n.rebuilt n.shape) leaf options.container c] at first
  generalize drafted : (⟨m', [(name, some ((n.rebuilt n.shape).schema c))]⟩ : SchemaDraft) = d at first
  have all : r.collectAll options.container [name] ⟨m, []⟩ = (.ok (), d) := by
    rw [collectAll, Inquiry.bind_ok first]
    rfl
  have rooted : r.collectRoot options.container options.root d = (.ok (), d) := by
    cases root : options.root with
    | none => rfl
    | some other =>
      -- the place of the definition is filled already
      cases alone other root
      have taken : d.slots.has name = true := by
        rw [← drafted]
        unfold Table.has
        rw [Table.get?_cons, if_pos rfl]
        rfl
      have again : collect r ⟨options.container, [], ""⟩ name d = (.ok true, d) := by rw [collect_eq, if_pos (.inr taken)]
      rw [collectRoot, Inquiry.bind_ok again]
      rfl
  rw [schemaFor_eq]
  unfold SchemaDrafting.alone
  rw [Inquiry.bind_ok all, Inquiry.bind_ok rooted, ← drafted]
  rfl

-- The schema that is emitted for a definition takes a value on this condition, wherever it stands.
def AcceptsIf (r : Registry) (name : String) (v : Json) (condition : Prop) : Prop :=
  ∃ schema, r.EmitsAlone name schema ∧ ∀ (engine : SchemaEngine) p, engine.Lawful p →
    (∀ document, Accepts p document schema v ↔ condition) ∧
    (∃ verdict, validateAgainst engine schema v = some verdict ∧ Answers condition verdict) ∧
    (isPlainName name → ∃ verdict, validateAgainst engine (schemaDocument (.rooted name) [(name, schema)]) v = some verdict ∧
      Answers condition verdict)

theorem accepts_leaf {n : Node} {condition : Prop} (resolves : r.Resolves name n)
    (inside : n.restriction.includes .external)
    (leaf : n.shape.isLeaf) (expressible : n.shape.isExpressible) (unpatterned : n.shape ≠ .string) (settled : v.Settled)
    (accepts : ∀ p document, Accepts p document ((n.rebuilt n.shape).schema .definitions) v ↔ condition)
    (conforms : ∀ p, Conforms p meetsConstant [(name, n.rebuilt n.shape)] (n.rebuilt n.shape) v ↔ condition) : r.AcceptsIf name v condition := by
  have writable : n.shape.isWritable := Shape.writable_of_expressible expressible
  refine ⟨_, emitsAlone_leaf resolves inside leaf writable .definitions, fun engine p lawful => ⟨accepts p, ?_, fun plain => ?_⟩⟩
  · have orderly : (n.rebuilt n.shape).Orderly [] := Node.orderly_leaf (n := n.rebuilt n.shape) leaf expressible []
    have alone := orderly.leaf_plain leaf
    have usable : ((n.rebuilt n.shape).written .definitions).Usable p := orderly.leaf_usable leaf unpatterned
    have accepts := accepts p
    rw [Node.schema_written_leaf (n := n.rebuilt n.shape) leaf expressible] at accepts ⊢
    obtain ⟨verdict, ended⟩ := lawful.validates alone.1 alone.2 settled
    have judged := lawful.judges alone.1 settled ended
    exact ⟨verdict, ended, judged.ok_iff.trans ((and_iff_right usable).trans (accepts _)),
      judged.violated_iff.trans ((and_iff_right usable).trans (not_congr (accepts _)))⟩
  · have free : (n.rebuilt n.shape).patterns = [] := Node.patterns_leaf leaf unpatterned
    obtain ⟨verdict, ended, answers⟩ := validateAgainst_leaf lawful (n := n.rebuilt n.shape) plain leaf expressible free settled
    exact ⟨verdict, ended, answers.1.trans (conforms p), answers.2.trans (not_congr (conforms p))⟩

theorem accepts_constant {n : Node} {l : Literal} (resolves : r.Resolves name n)
    (inside : n.restriction.includes .external)
    (shape : n.shape = .constant l) (read : Literal.ofJson? v = some l) : r.AcceptsIf name v True := by
  have rebuilt : (n.rebuilt n.shape).shape = .constant l := shape
  have meets : meetsConstant l.toJson v = true := Literal.meetsConstant_read read
  refine accepts_leaf resolves inside (shape ▸ rfl) (shape ▸ rfl) (shape ▸ nofun) (Literal.scalar_of_ofJson? read).settled
    (fun p document => ?_) fun p => ?_
  · exact iff_true_intro ((Node.accepts_constant .definitions rebuilt).2 meets)
  · rw [Node.rebuilt, shape, conforms_iff]
    exact iff_true_intro meets

theorem accepts_enumeration {n : Node} {values : List Literal} (resolves : r.Resolves name n)
    (inside : n.restriction.includes .external)
    (shape : n.shape = .enumeration values naming) (scalar : v.IsScalar) :
    r.AcceptsIf name v (∃ l ∈ values, l.toJson.sameValue v = true) := by
  have rebuilt : (n.rebuilt n.shape).shape = .enumeration values naming := shape
  refine accepts_leaf resolves inside (shape ▸ rfl) (shape ▸ rfl) (shape ▸ nofun) scalar.settled (fun p document => ?_) fun p => ?_
  · exact Node.accepts_enumeration .definitions rebuilt
  · rw [Node.rebuilt, shape, conforms_iff]
    exact Iff.rfl

theorem constantOf_resolves (l : Literal) (found : r.find? name = some (.constantOf l)) :
    r.Resolves name (.constantOf l) :=
  ⟨found, rfl⟩

-- Scalars come back out of literals, except for whole numbers that need all of 64 bits and are no
-- doubles.
theorem literals_return {v : Json} (scalar : v.IsScalar) :
    (∃ l, Literal.ofJson? v = some l ∧ (l.toJson.sameValue v = true ↔ ¬v.Strays)) ∧
    (∀ mark, ∃ n, Manifest.node? mark (.object [("kind", .string "const"), ("value", v)]) = some n ∧
      ∀ (r : Registry) name, r.find? name = some n → r.AcceptsIf name v True) ∧
    ∀ inside mark fields vs n, Manifest.nodeAt? inside mark (.object fields) = some n →
      Manifest.States fields .enumeration "values" (.array vs) → v ∈ vs → n.restriction.includes .external →
      ∀ (r : Registry) name, r.Resolves name n → r.AcceptsIf name v (¬v.Strays) := by
  obtain ⟨l, read⟩ := Literal.ofJson?_scalar scalar
  refine ⟨⟨l, read, Literal.sameValue_iff read⟩, fun mark => ?_, ?_⟩
  · refine ⟨_, Manifest.node?_constant read mark, fun r name found => ?_⟩
    exact accepts_constant (constantOf_resolves l found) rfl rfl read
  · intro inside mark fields vs n node states member external r name resolves
    obtain ⟨values, naming, listed, shape⟩ := states.enumeration node
    rw [← Literal.listed_iff listed member]
    exact accepts_enumeration resolves external shape scalar

def menu : Manifest.Fields :=
  [("kind", .string "enum"), ("title", .string "Choice"), ("values", .array [.string "all", .number (.whole ⟨7, by decide, by decide⟩)]),
    ("realEnum", .bool true)]

def choice : Node :=
  ((Node.enumOf [.string "all", .int ⟨7, by decide, by decide⟩]).named ⟨⟨"Choice", []⟩, Literal.pascalCase⟩).title "Choice"

theorem literals_return_listed : ∃ schema, (only "Choice" choice).EmitsAlone "Choice" schema ∧
    validateAgainst Engines.builtIn.schema (schemaDocument (.rooted "Choice") [("Choice", schema)])
      (.number (.whole ⟨7, by decide, by decide⟩)) = some (.ok ()) := by
  have read : Manifest.nodeAt? false ⟨"Choice", []⟩ (.object menu) = some choice := by cbv
  have scalar : Json.IsScalar (.number (.whole ⟨7, by decide, by decide⟩)) := trivial
  have listed := (literals_return scalar).2.2
  obtain ⟨schema, emits, accepts⟩ := listed _ _ menu _ _ read ⟨rfl, rfl⟩ (List.mem_cons_of_mem _ List.mem_cons_self) rfl
    (only "Choice" choice) "Choice" ⟨rfl, by cbv⟩
  obtain ⟨-, -, whole⟩ := accepts Engines.builtIn.schema .builtIn Engines.builtIn_lawful
  obtain ⟨verdict, ended, answers⟩ := whole (by decide)
  refine ⟨schema, emits, ended.trans (congrArg some (answers.1.2 ?_))⟩
  rintro ⟨large, -⟩
  exact absurd large (by decide)

-- The least number that needs all of 64 bits and is no double.
def stray : Json := .number (.whole ⟨9223372036854775809, by decide, by decide⟩)

def strayLiteral : Literal := .float (Number.whole ⟨9223372036854775809, by decide, by decide⟩).nearest

theorem literals_stray : stray.IsScalar ∧ Literal.ofJson? stray = some strayLiteral ∧
    strayLiteral.toJson.sameValue stray = false ∧
    ∃ n, Manifest.node? ⟨"D", []⟩ (.object [("kind", .string "enum"), ("values", .array [stray])]) = some n ∧
      (only "D" n).AcceptsIf "D" stray False := by
  have strays : stray.Strays := ⟨by decide, by decide⟩
  have other : strayLiteral.toJson.sameValue stray = false := Bool.eq_false_iff.2 fun same => Literal.not_strays same strays
  refine ⟨trivial, rfl, other, .enumOf [strayLiteral], Manifest.node?_enumeration rfl _, ?_⟩
  · have resolves : (only "D" (.enumOf [strayLiteral])).Resolves "D" (.enumOf [strayLiteral]) := ⟨rfl, rfl⟩
    have accepts := accepts_enumeration (v := stray) resolves rfl rfl trivial
    have never : (∃ l ∈ [strayLiteral], l.toJson.sameValue stray = true) ↔ False :=
      iff_false_intro fun ⟨_, _, same⟩ => Literal.not_strays same strays
    rwa [never] at accepts

end Registry
end TwinShape
