import TwinShape.Node.Builder
import TwinShape.Proofs.Declaration.Meaning
import TwinShape.Proofs.Declaration.Writing
import TwinShape.Schema.Evaluator

namespace TwinShape
open Script

namespace TypeExpr

theorem distinctOptions_covers (depth : Nat) {options : List TypeExpr} (member : t ∈ options) :
    ∃ k ∈ distinctOptions depth options, k.write depth = t.write depth := by
  have gathered : ∀ (options kept : List TypeExpr), (∃ k ∈ kept, k.write depth = t.write depth) ∨ t ∈ options →
      ∃ k ∈ options.foldl (fun kept t =>
        bif kept.any (·.write depth == t.write depth) then kept else kept ++ [t]) kept, k.write depth = t.write depth := by
    intro options
    induction options with
    | nil => exact fun kept known => known.resolve_right List.not_mem_nil
    | cons first rest ih =>
      intro kept known
      rw [List.foldl_cons]
      refine ih _ ?_
      have onward : ∀ k ∈ kept, k ∈ (bif kept.any (·.write depth == first.write depth) then kept else kept ++ [first]) := by
        intro k inside
        cases kept.any (·.write depth == first.write depth)
        · exact List.mem_append_left _ inside
        · exact inside
      rcases known with ⟨k, inside, same⟩ | member
      · exact .inl ⟨k, onward k inside, same⟩
      rcases List.mem_cons.1 member with rfl | later
      · refine .inl ?_
        cases known : kept.any (·.write depth == t.write depth) with
        | true =>
          obtain ⟨k, inside, same⟩ := List.any_eq_true.1 known
          exact ⟨k, inside, eq_of_beq same⟩
        | false => exact ⟨t, List.mem_append_right _ List.mem_cons_self, rfl⟩
      · exact .inr later
  exact gathered options [] (.inr member)

theorem mem_meanings {options : List TypeExpr} : u ∈ meanings options ↔ ∃ t ∈ options, u ∈ t.meaning := by
  induction options with
  | nil => exact iff_of_false List.not_mem_nil fun ⟨_, member, _⟩ => List.not_mem_nil member
  | cons t rest ih => rw [meanings, List.mem_append, ih, List.exists_mem_cons_iff]

theorem meanings_literals (values : List Literal) : meanings (values.map .literal) = values.map Literal.operand := by
  induction values with
  | nil => rfl
  | cons value rest ih =>
    rw [List.map_cons, meanings, ih]
    rfl

theorem mem_distinctOptions {l : Letters} {depth : Nat} {options : List TypeExpr} (each : ∀ o ∈ options, o.Sound l) :
    u ∈ meanings (distinctOptions depth options) ↔ ∃ t ∈ options, u ∈ t.meaning := by
  rw [mem_meanings]
  constructor
  · rintro ⟨t, kept, inside⟩
    exact ⟨t, mem_of_distinctOptions kept, inside⟩
  · rintro ⟨t, member, inside⟩
    obtain ⟨k, kept, same⟩ := distinctOptions_covers depth member
    have said := ((each k (mem_of_distinctOptions kept)).spells depth).1.read?_eq
    rw [same, ((each t member).spells depth).1.read?_eq] at said
    exact ⟨k, kept, Option.some.inj said ▸ inside⟩

end TypeExpr

def Additional.meaning (rest : List Operand) : Additional ν → Option (List Operand)
  | .forbidden => none
  | .allowed => some [.keyword "unknown"]
  | .shape _ => some rest

inductive Node.Denoted (given : String → String → Prop) : Node → List Operand → Prop
  | object (fields : List (Property Node × List Operand)) (shape : n.shape = .object ⟨fields.map (·.1), extra, parents⟩)
      (members : ∀ f ∈ fields, Denoted given f.1.value f.2) (further : ∀ a ∈ extra.nodes, Denoted given a rest) :
      Denoted given n [.record (fields.map fun f => ⟨units f.1.name.toList, f.1.value.isOptional, f.2⟩) (extra.meaning rest)]
  | array (shape : n.shape = .array item) (inner : Denoted given item us) : Denoted given n [.array us]
  | union (options : List (Node × List Operand)) (shape : n.shape = .union (options.map (·.1)))
      (each : ∀ o ∈ options, Denoted given o.1 o.2) (all : ∀ u, u ∈ us ↔ ∃ o ∈ options, u ∈ o.2) : Denoted given n us
  | enumeration (shape : n.shape = .enumeration values naming) : Denoted given n (values.map Literal.operand)
  | constant (shape : n.shape = .constant value) : Denoted given n [value.operand]
  | string (shape : n.shape = .string) : Denoted given n [.keyword "string"]
  | number (shape : n.shape = .number ∨ n.shape = .integer) : Denoted given n [.keyword "number"]
  | boolean (shape : n.shape = .boolean) : Denoted given n [.keyword "boolean"]
  | null (shape : n.shape = .null) : Denoted given n [.keyword "null"]
  | reference (shape : n.shape = .reference name) (known : given name identifier) : Denoted given n [.named identifier]
  | imported (shape : n.shape = .imported name module) : Denoted given n [.named name]
  | linked (shape : n.shape = .linked declaration other) (inner : Denoted given declaration us) : Denoted given n us

def Shape.strings : Shape Node → List String
  | .object o => o.properties.map (·.name)
  | .enumeration values _ => values.filterMap fun | .string s => some s | _ => none
  | .constant (.string s) => [s]
  | _ => []

inductive Node.Shown (x : Node) : Node → Prop
  | self : Shown x x
  | inside (member : c ∈ n.shape.typedNodes) (shown : Shown x c) : Shown x n

-- Whether only one alternative is written for a node, looked at through links and unions of one.
def Node.isSingle : Node → Bool
  | ⟨.union [member], _, _, _, _⟩ => member.isSingle
  | ⟨.linked declaration _, _, _, _, _⟩ => declaration.isSingle
  | ⟨.enumeration [_] _, _, _, _, _⟩ => true
  | ⟨.union _, _, _, _, _⟩ | ⟨.enumeration .., _, _, _, _⟩ | ⟨.raw .., _, _, _, _⟩ => false
  | _ => true

-- Whether a union of one, if a node is one, holds a single alternative.
def Node.isWhole : Node → Bool
  | ⟨.union [member], _, _, _, _⟩ => member.isSingle
  | ⟨.linked declaration _, _, _, _, _⟩ => declaration.isWhole
  | ⟨.union [], _, _, _, _⟩ | ⟨.enumeration [] _, _, _, _, _⟩ => false
  | _ => true

theorem Node.Typed.isLone {n : Node} (typed : n.Typed given taken depth type) (single : n.isSingle = true) :
    type.isLone = true := by
  induction typed with
  | @union depth n options shape _ ih =>
    obtain ⟨_, _, _, _, _⟩ := n
    cases shape
    match options, ih, single with
    | [o], ih, single =>
      change TypeExpr.isLone o.2 = true
      exact ih o List.mem_cons_self single
  | @enumeration _ n values naming shape =>
    obtain ⟨_, _, _, _, _⟩ := n
    cases shape
    rcases values with _ | ⟨value, _ | _⟩
    · cases single
    · rfl
    · cases single
  | @linked _ declaration _ n other shape _ ih =>
    obtain ⟨_, _, _, _, _⟩ := n
    cases shape
    exact ih single
  | @verbatim _ n text other shape =>
    obtain ⟨_, _, _, _, _⟩ := n
    cases shape
    cases single
  | object | array | constant | string | number | boolean | null | reference | imported => rfl

-- What stands before the brackets of an array is put in brackets itself or is a single alternative.
theorem Node.Typed.whole {n : Node} (typed : n.Typed given taken depth type) (whole : n.isWhole = true) :
    needsGrouping n = true ∨ type.isLone = true := by
  induction typed with
  | @union depth n options shape each ih =>
    obtain ⟨_, _, _, _, _⟩ := n
    cases shape
    match options, each, whole with
    | [o], each, single => exact .inr ((each o List.mem_cons_self).isLone single)
    | _ :: _ :: _, _, _ => exact .inl (by simp [needsGrouping])
  | @enumeration _ n values naming shape =>
    obtain ⟨_, _, _, _, _⟩ := n
    cases shape
    match values, whole with
    | [value], _ => exact .inr rfl
    | _ :: _ :: _, _ => exact .inl (by simp [needsGrouping])
  | @linked _ declaration _ n other shape _ ih =>
    obtain ⟨_, _, _, _, _⟩ := n
    cases shape
    exact ih whole
  | @verbatim _ n text other shape =>
    obtain ⟨_, _, _, _, _⟩ := n
    cases shape
    exact .inl rfl
  | object | array | constant | string | number | boolean | null | reference | imported => exact .inr rfl

-- What must hold of each of them so that its text can be read: it is not raw and not without any alternative,
-- no line ends in a string, the names are names, and an item of an array that has several alternatives is in brackets.
structure Node.Sayable (l : Letters) (given : String → String → Prop) (n : Node) : Prop where
  unraw : ∀ declaration schema, n.shape ≠ .raw declaration schema
  some_ : n.shape ≠ .union [] ∧ ∀ naming, n.shape ≠ .enumeration [] naming
  unbroken : ∀ s ∈ n.shape.strings, Unbroken s
  referred : ∀ name identifier, n.shape = .reference name → given name identifier → l.IsName identifier
  imported : ∀ name module, n.shape = .imported name module → l.IsName name
  whole : ∀ item depth type, n.shape = .array item → item.Typed given (fun _ _ => True) depth type →
    needsGrouping item = true ∨ type.isLone = true

theorem Node.forall_shown {P : Node → Prop} {n : Node} (here : P n)
    (inside : ∀ c ∈ n.shape.typedNodes, ∀ x : Node, x.Shown c → P x) : ∀ x : Node, x.Shown n → P x := by
  intro x shown
  cases shown with
  | self => exact here
  | inside member shown => exact inside _ member x shown

namespace Node
variable {l : Letters} {given : String → String → Prop}

theorem Sayable.literal {values : List Literal} (unbroken : ∀ s ∈ (Shape.enumeration values naming).strings, Unbroken s)
    (member : value ∈ values) : ∀ s, value = .string s → Unbroken s := by
  rintro s rfl
  exact unbroken s (List.mem_filterMap.2 ⟨_, member, rfl⟩)

theorem entries_memberOf (fields : List (Property Node × TypeExpr)) :
    TypeExpr.entries (fields.map fun f => memberOf f.1 f.2) =
      (fields.map fun f => (f.1, f.2.meaning)).map fun f => ⟨units f.1.name.toList, f.1.value.isOptional, f.2⟩ := by
  induction fields with
  | nil => rfl
  | cons f rest ih =>
    rw [List.map_cons, List.map_cons, List.map_cons, ← ih]
    rfl

theorem indexMeaning_index (extra : Additional ν) (rest : TypeExpr) :
    TypeExpr.indexMeaning (extra.index rest) = extra.meaning rest.meaning := by
  cases extra <;> rfl

theorem sound_index {extra : Additional Node} (each : ∀ a ∈ extra.nodes, rest.Sound l) :
    ∀ t, extra.index rest = some t → t.Sound l := by
  intro t same
  cases extra with
  | forbidden => cases same
  | allowed =>
    cases same
    exact .keyword (by decide)
  | shape n =>
    cases same
    exact each n List.mem_cons_self

theorem denoted_record {n : Node} {fields : List (Property Node × TypeExpr)} {extra : Additional Node}
    (shape : n.shape = .object ⟨fields.map (·.1), extra, parents⟩) (sayable : n.Sayable l given)
    (inner : ∀ f ∈ fields, f.2.Sound l ∧ f.1.value.Denoted given f.2.meaning)
    (further : ∀ a ∈ extra.nodes, rest.Sound l ∧ a.Denoted given rest.meaning) :
    (TypeExpr.record (fields.map fun f => memberOf f.1 f.2) (extra.index rest)).Sound l ∧
      n.Denoted given (TypeExpr.record (fields.map fun f => memberOf f.1 f.2) (extra.index rest)).meaning := by
  have keys : ∀ f ∈ fields, Unbroken f.1.name := by
    intro f member
    refine sayable.unbroken f.1.name ?_
    rw [shape]
    exact List.mem_map_of_mem (List.mem_map_of_mem member)
  refine ⟨.record (List.forall_mem_map.2 keys) (List.forall_mem_map.2 fun f member => (inner f member).1)
    (sound_index fun a member => (further a member).1), ?_⟩
  rw [TypeExpr.meaning, entries_memberOf, indexMeaning_index]
  have same : n.shape = .object ⟨(fields.map fun f => (f.1, f.2.meaning)).map (·.1), extra, parents⟩ := by
    rw [shape, List.map_map]
    rfl
  exact .object _ same (List.forall_mem_map.2 fun f member => (inner f member).2) fun a member => (further a member).2

theorem denoted_alternatives {n : Node} {options : List (Node × TypeExpr)}
    (shape : n.shape = .union (options.map (·.1)))
    (sayable : n.Sayable l given) (inner : ∀ o ∈ options, o.2.Sound l ∧ o.1.Denoted given o.2.meaning) (depth : Nat) :
    (TypeExpr.alternatives (TypeExpr.distinctOptions depth (options.map (·.2)))).Sound l ∧
      n.Denoted given (TypeExpr.alternatives (TypeExpr.distinctOptions depth (options.map (·.2)))).meaning := by
  have sound : ∀ t ∈ options.map (·.2), t.Sound l := List.forall_mem_map.2 fun o member => (inner o member).1
  refine ⟨.alternatives ?_ fun t kept => sound t (TypeExpr.mem_of_distinctOptions kept), ?_⟩
  · cases options with
    | nil => exact absurd shape sayable.some_.1
    | cons o rest =>
      obtain ⟨k, kept, -⟩ := TypeExpr.distinctOptions_covers depth (List.mem_cons_self (a := o.2) (l := rest.map (·.2)))
      exact List.ne_nil_of_mem kept
  · refine .union (options.map fun o => (o.1, o.2.meaning)) ?_ (List.forall_mem_map.2 fun o member => (inner o member).2) fun u => ?_
    · rw [shape, List.map_map]
      rfl
    · rw [TypeExpr.meaning, TypeExpr.mem_distinctOptions sound]
      simp only [List.mem_map, exists_exists_and_eq_and]

-- A type that is written for such a node can be said, and means what the node stands for.
theorem Typed.denoted {n : Node} {type : TypeExpr} (typed : n.Typed given (fun _ _ => True) depth type)
    (sayable : ∀ x : Node, x.Shown n → x.Sayable l given) : type.Sound l ∧ n.Denoted given type.meaning := by
  induction typed with
  | @object _ rest n extra parents fields shape _ _ ih ih' =>
    refine denoted_record shape (sayable n .self) (fun f member => ?_) fun a member => ?_
    · refine ih f member fun x shown => sayable x (.inside ?_ shown)
      rw [shape]
      exact List.mem_append_left _ (List.mem_map_of_mem (List.mem_map_of_mem member))
    · refine ih' a member fun x shown => sayable x (.inside ?_ shown)
      rw [shape]
      exact List.mem_append_right _ member
  | @array depth item type n shape inner ih =>
    have part : item ∈ n.shape.typedNodes := by
      rw [shape]
      exact List.mem_cons_self
    obtain ⟨sound, denoted⟩ := ih fun x shown => sayable x (.inside part shown)
    exact ⟨.array sound ((sayable n .self).whole item depth type shape inner), .array shape denoted⟩
  | @union depth n options shape _ ih =>
    refine denoted_alternatives shape (sayable n .self) (fun o member => ?_) depth
    refine ih o member fun x shown => sayable x (.inside ?_ shown)
    rw [shape]
    exact List.mem_map_of_mem member
  | @enumeration _ n values naming shape =>
    have unbroken := (sayable n .self).unbroken
    rw [shape] at unbroken
    refine ⟨.alternatives ?_ (List.forall_mem_map.2 fun value member => .literal (Sayable.literal unbroken member)), ?_⟩
    · intro none_
      rw [List.map_eq_nil_iff.1 none_] at shape
      exact (sayable n .self).some_.2 naming shape
    · rw [TypeExpr.meaning, TypeExpr.meanings_literals]
      exact .enumeration shape
  | @constant _ n value shape =>
    refine ⟨.literal ?_, .constant shape⟩
    rintro s rfl
    refine (sayable n .self).unbroken s ?_
    rw [shape]
    exact List.mem_cons_self
  | string shape => exact ⟨.keyword (by decide), .string shape⟩
  | number shape => exact ⟨.keyword (by decide), .number shape⟩
  | boolean shape => exact ⟨.keyword (by decide), .boolean shape⟩
  | null shape => exact ⟨.keyword (by decide), .null shape⟩
  | @reference name identifier _ n shape known =>
    exact ⟨.named ((sayable n .self).referred name identifier shape known), .reference shape known⟩
  | @verbatim _ n text other shape => exact absurd shape ((sayable n .self).unraw _ _)
  | @imported module name _ n shape known => exact ⟨.named ((sayable n .self).imported name module shape), .imported shape⟩
  | @linked _ declaration _ n other shape _ ih =>
    have part : declaration ∈ n.shape.typedNodes := by
      rw [shape]
      exact List.mem_cons_self
    obtain ⟨sound, denoted⟩ := ih fun x shown => sayable x (.inside part shown)
    exact ⟨sound, .linked shape denoted⟩

end Node
def Inquiry.Answers (P : α → Prop) (x : Inquiry σ ε α) : Prop := ∀ s a t, x s = (.ok a, t) → P a

namespace Inquiry.Answers
variable {P : α → Prop} {Q : β → Prop}

theorem pure (here : P a) : Answers P (Pure.pure a : Inquiry σ ε α) := by
  rintro s _ t ⟨⟩
  exact here

theorem bind {x : Inquiry σ ε α} {f : α → Inquiry σ ε β} (first : Answers P x) (next : ∀ a, P a → Answers Q (f a)) :
    Answers Q (x >>= f) := by
  intro s b t done
  obtain ⟨a, u, before, after⟩ := Inquiry.of_bind_ok done
  exact next a (first s a u before) u b t after

end Inquiry.Answers

namespace Registry
variable {r : Registry} {s : DraftScope} {depth : Nat}

-- What a definition may be called in these declarations.
def Gives (r : Registry) (s : DraftScope) (name identifier : String) : Prop :=
  ∃ m, (r.declarationName s.suffix name s.variant m).1 = identifier

abbrev Types (r : Registry) (s : DraftScope) (depth : Nat) (n : Node) : Prop :=
  (typeOf r s depth n).Answers (n.Typed (r.Gives s) (fun _ _ => True) depth)

theorem gives_of_declare (name : String) :
    (declare r s name).Answers fun given => ∀ identifier, given = some identifier → r.Gives s name identifier := by
  intro d given d' done identifier same
  have gives : ∀ {apart m}, r.isApart name s.variant d.memory = (apart, m) → r.Gives s name (declaredName s.suffix name apart) := by
    intro apart m judged
    refine ⟨d.memory, ?_⟩
    unfold declarationName
    rw [judged]
  cases declare_cases done with
  | again judged _ | fresh judged _ _ _ _ => exact Option.some.inj same ▸ gives judged
  | absent => cases same

theorem types_answer {ns : List Node} (each : ∀ n ∈ ns, r.Types s depth n) :
    (typesOf r s depth ns).Answers fun types => ∃ options : List (Node × TypeExpr), ns = options.map (·.1) ∧
      types = options.map (·.2) ∧ ∀ o ∈ options, o.1.Typed (r.Gives s) (fun _ _ => True) depth o.2 := by
  induction ns with
  | nil =>
    rw [typesOf]
    exact .pure ⟨[], rfl, rfl, List.forall_mem_nil _⟩
  | cons n rest ih =>
    rw [typesOf]
    refine .bind (each n List.mem_cons_self) fun type first => ?_
    refine .bind (ih fun m member => each m (List.mem_cons_of_mem _ member)) fun types further => .pure ?_
    obtain ⟨options, rfl, rfl, later⟩ := further
    exact ⟨(n, type) :: options, rfl, rfl, List.forall_mem_cons.2 ⟨first, later⟩⟩

theorem members_answer {ps : List (Property Node)} (each : ∀ n ∈ ps.map (·.value), r.Types s (depth + 1) n) :
    (membersOf r s depth ps).Answers fun members => ∃ fields : List (Property Node × TypeExpr), ps = fields.map (·.1) ∧
      members = fields.map (fun f => memberOf f.1 f.2) ∧
      ∀ f ∈ fields, f.1.value.Typed (r.Gives s) (fun _ _ => True) (depth + 1) f.2 := by
  induction ps with
  | nil =>
    rw [membersOf]
    exact .pure ⟨[], rfl, rfl, List.forall_mem_nil _⟩
  | cons p rest ih =>
    obtain ⟨name, value, restriction⟩ := p
    rw [membersOf]
    refine .bind (each value List.mem_cons_self) fun type first => ?_
    refine .bind (ih fun m member => each m (List.mem_cons_of_mem _ member)) fun members further => .pure ?_
    obtain ⟨fields, rfl, rfl, later⟩ := further
    exact ⟨(⟨name, value, restriction⟩, type) :: fields, rfl, rfl, List.forall_mem_cons.2 ⟨first, later⟩⟩

theorem index_answer {a : Additional Node} (each : ∀ n ∈ a.nodes, r.Types s (depth + 1) n) :
    (indexOf r s depth a).Answers fun index => ∃ rest, index = a.index rest ∧
      ∀ n ∈ a.nodes, n.Typed (r.Gives s) (fun _ _ => True) (depth + 1) rest := by
  cases a with
  | forbidden =>
    rw [indexOf]
    exact .pure ⟨.keyword "unknown", rfl, List.forall_mem_nil _⟩
  | allowed =>
    rw [indexOf]
    exact .pure ⟨.keyword "unknown", rfl, List.forall_mem_nil _⟩
  | shape n =>
    rw [indexOf]
    refine .bind (each n List.mem_cons_self) fun type typed => .pure ?_
    exact ⟨type, rfl, List.forall_mem_singleton.2 typed⟩

theorem types (r : Registry) (s : DraftScope) (depth : Nat) (n : Node) : r.Types s depth n := by
  induction n using Node.tree_induction generalizing depth with
  | node n ih =>
    replace ih : ∀ c ∈ n.shape.typedNodes, ∀ depth, r.Types s depth c := fun c member depth =>
      ih c (Shape.child_of_typed member) depth
    obtain ⟨shape, annotations, optionality, restriction, misuse⟩ := n
    unfold Types
    cases shape with
    | object o =>
      obtain ⟨ps, a, parents⟩ := o
      rw [typeOf]
      refine .bind (members_answer fun c member => ih c (List.mem_append_left _ member) _) fun members own => ?_
      refine .bind (index_answer fun c member => ih c (List.mem_append_right _ member) _) fun index further => .pure ?_
      obtain ⟨fields, rfl, rfl, typed⟩ := own
      obtain ⟨rest, rfl, typed'⟩ := further
      exact .object fields rfl typed typed'
    | array item =>
      rw [typeOf]
      exact .bind (ih item List.mem_cons_self depth) fun type typed => .pure (.array rfl typed)
    | union members =>
      rw [typeOf]
      refine .bind (types_answer fun c member => ih c member depth) fun types own => .pure ?_
      obtain ⟨options, rfl, rfl, typed⟩ := own
      exact .union options rfl typed
    | reference name =>
      rw [typeOf]
      refine .bind (gives_of_declare name) fun given known => ?_
      cases given with
      | none => rintro _ _ _ ⟨⟩
      | some identifier => exact .pure (.reference rfl (known identifier rfl))
    | raw declaration schema =>
      cases declaration with
      | none =>
        rw [typeOf]
        rintro _ _ _ ⟨⟩
      | some text =>
        rw [typeOf]
        exact .pure (.verbatim rfl)
    | imported name module =>
      rw [typeOf]
      exact .bind (P := fun _ => True) (fun _ _ _ _ => trivial) fun _ _ => .pure (.imported rfl trivial)
    | linked declaration schema =>
      rw [typeOf]
      exact fun d type d' done => .linked rfl (ih declaration List.mem_cons_self depth d type d' done)
    | enumeration values naming =>
      rw [typeOf]
      exact .pure (.enumeration rfl)
    | constant value =>
      rw [typeOf]
      exact .pure (.constant rfl)
    | string =>
      rw [typeOf]
      exact .pure (.string rfl)
    | number =>
      rw [typeOf]
      exact .pure (.number (.inl rfl))
    | integer =>
      rw [typeOf]
      exact .pure (.number (.inr rfl))
    | boolean =>
      rw [typeOf]
      exact .pure (.boolean rfl)
    | null =>
      rw [typeOf]
      exact .pure (.null rfl)

variable {l : Letters} {n : Node} {d d' : Draft} {type : TypeExpr}

-- An array is misread exactly if its item has several alternatives and is not in brackets.
theorem typeOf_array_iff (shape : n.shape = .array item) (sayable : ∀ x : Node, x.Shown item → x.Sayable l (r.Gives s))
    (wrote : typeOf r s depth n d = (.ok type, d')) :
    ∃ inner, type = .array inner (needsGrouping item) ∧
      ((∃ us, l.read? (type.write depth) = some us ∧ n.Denoted (r.Gives s) us) ↔ needsGrouping item = true ∨ inner.isLone = true) := by
  have typed := r.types s depth n d type d' wrote
  obtain ⟨_, annotations, optionality, restriction, misuse⟩ := n
  cases shape
  cases typed with
  | @array _ _ inner _ shape typed =>
    cases shape
    obtain ⟨sound, denoted⟩ := typed.denoted sayable
    refine ⟨inner, rfl, ⟨fun known => ?_, fun whole => ?_⟩⟩
    · obtain ⟨us, read, stands⟩ := known
      cases stands with
      | array => exact (TypeExpr.read_array_iff sound _ depth).1 ⟨_, read⟩
      | number shape => rcases shape with shape | shape <;> cases shape
      | object _ shape | union _ shape | enumeration shape | constant shape | string shape | boolean shape | null shape
      | reference shape | imported shape | linked shape => cases shape
    · exact ⟨_, ((TypeExpr.Sound.array sound whole).spells depth).1.read?_eq, .array rfl denoted⟩
  | number shape => rcases shape with shape | shape <;> cases shape
  | object _ shape | union _ shape | enumeration shape | constant shape | string shape | boolean shape | null shape
  | reference shape | verbatim shape | imported shape | linked shape => cases shape

-- The type that is written for a node can be read, and it is one that the node stands for.
theorem typeOf_denoted (sayable : ∀ x : Node, x.Shown n → x.Sayable l (r.Gives s))
    (wrote : typeOf r s depth n d = (.ok type, d')) :
    ∃ us, us ≠ [] ∧ l.read? (type.write depth) = some us ∧ n.Denoted (r.Gives s) us := by
  obtain ⟨sound, denoted⟩ := (r.types s depth n d type d' wrote).denoted sayable
  obtain ⟨_, _, parsed⟩ := (sound.spells depth).1
  exact ⟨type.meaning, parsed.some_, (sound.spells depth).1.read?_eq, denoted⟩

def plainLetters : Letters := ⟨fun _ => false, fun _ => false, nofun, nofun⟩

def words : Node := .enumOf [.string "a", .string "b"]

theorem sayable_words {given : String → String → Prop} : ∀ x : Node, x.Shown words → x.Sayable l given := by
  have each : ∀ s ∈ ["a", "b"], Unbroken s := by simp [Unbroken, isLineEnd]
  exact Node.forall_shown ⟨nofun, ⟨nofun, nofun⟩, each, nofun, nofun, nofun⟩ (List.forall_mem_nil _)

def wordy : Node := .arrayOf (.unionOf [words, .string])

theorem sayable_wordy {given : String → String → Prop} : ∀ x : Node, x.Shown wordy → x.Sayable l given := by
  refine Node.forall_shown ⟨nofun, ⟨nofun, nofun⟩, nofun, nofun, nofun, ?_⟩ (List.forall_mem_singleton.2 ?_)
  · rintro _ _ _ ⟨⟩ typed
    exact typed.whole rfl
  · refine Node.forall_shown ⟨nofun, ⟨nofun, nofun⟩, nofun, nofun, nofun, nofun⟩ (List.forall_mem_cons.2 ⟨sayable_words, ?_⟩)
    refine List.forall_mem_singleton.2 (Node.forall_shown ⟨nofun, ⟨nofun, nofun⟩, nofun, nofun, nofun, nofun⟩ ?_)
    exact List.forall_mem_nil _

theorem typeOf_wordy : ∃ us, us ≠ [] ∧ plainLetters.read? "('a' | 'b' | string)[]" = some us ∧
    wordy.Denoted (Gives ⟨[], by decide, .builtIn⟩ ⟨"Internal", .external, [], ""⟩) us := by
  have wrote : typeOf ⟨[], by decide, .builtIn⟩ ⟨"Internal", .external, [], ""⟩ 0 wordy ⟨.blank, [], []⟩ =
      (.ok (.array (.alternatives [.alternatives [.literal (.string "a"), .literal (.string "b")], .keyword "string"]) true),
        ⟨.blank, [], []⟩) := by cbv
  have read := typeOf_denoted (l := plainLetters) sayable_wordy wrote
  have text : TypeExpr.write 0 (.array (.alternatives [.alternatives [.literal (.string "a"), .literal (.string "b")],
      .keyword "string"]) true) = "('a' | 'b' | string)[]" := by cbv
  rwa [text] at read

def bracketed : Node := .arrayOf (.unionOf [words])

theorem sayable_bracketed {given : String → String → Prop} :
    ∀ x : Node, x.Shown (.unionOf [words]) → x.Sayable l given :=
  Node.forall_shown ⟨nofun, ⟨nofun, nofun⟩, nofun, nofun, nofun, nofun⟩ (List.forall_mem_singleton.2 sayable_words)

-- The brackets are read as those of the last word.
theorem bracketed_misread : ∃ type, (typeOf ⟨[], by decide, .builtIn⟩ ⟨"Internal", .external, [], ""⟩ 0 bracketed ⟨.blank, [], []⟩).1 = .ok type ∧
    type.write 0 = "'a' | 'b'[]" ∧ ∀ l : Letters, ¬∃ us, l.read? (type.write 0) = some us ∧
      bracketed.Denoted (Gives ⟨[], by decide, .builtIn⟩ ⟨"Internal", .external, [], ""⟩) us := by
  let item : TypeExpr := .alternatives [.alternatives [.literal (.string "a"), .literal (.string "b")]]
  have wrote : typeOf ⟨[], by decide, .builtIn⟩ ⟨"Internal", .external, [], ""⟩ 0 bracketed ⟨.blank, [], []⟩ =
      (.ok (.array item false), ⟨.blank, [], []⟩) := by cbv
  refine ⟨.array item false, congrArg Prod.fst wrote, by cbv, fun l known => ?_⟩
  obtain ⟨inner, same, exact_⟩ := typeOf_array_iff rfl sayable_bracketed wrote
  cases same
  rcases exact_.1 known with grouped | lone
  · cases grouped
  · cases lone

end Registry
end TwinShape
