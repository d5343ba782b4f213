import TwinShape.Node.Builder
import TwinShape.Proofs.Node.Demands
import TwinShape.Proofs.Projection.Runs
import TwinShape.Proofs.Schema.Finished
import TwinShape.Proofs.Schema.Simulation
import TwinShape.Schema.Evaluator

namespace TwinShape

namespace Literal

-- A number that no other one shares its nearest double with.
def IsSmall : Literal → Prop
  | .int i => i.value.natAbs < 2 ^ 53
  | .float x => x.magnitude < 2 ^ 53 * Binary64.unitsPerOne
  | _ => True

theorem holds_iff {l : Literal} (small : l.IsSmall) (v : Json) : l.holds v = true ↔ l.toJson.sameValue v = true := by
  have numbers : ∀ a b : Number, a.nearest.units = a.units → a.units.natAbs < 2 ^ 53 * Binary64.unitsPerOne →
      ((a.nearest.units == b.nearest.units) = true ↔ a.sameValue b = true) := by
    intro a b exact_ few
    unfold Number.sameValue
    rw [beq_iff_eq, beq_iff_eq, exact_, eq_comm, Number.nearest_units_eq_iff few, eq_comm]
  cases l with
  | int i =>
    cases v with
    | number n =>
      refine numbers (.whole ⟨i.value, i.low_le, _⟩) n (Number.nearest_units small) ?_
      rw [Number.units, Int.natAbs_mul]
      exact Nat.mul_lt_mul_of_pos_right small Binary64.unitsPerOne_pos
    | _ => exact Iff.rfl
  | float x =>
    cases v with
    | number n => exact numbers (.float x) n rfl (by rw [Number.units, Binary64.natAbs_units]; exact small)
    | _ => exact Iff.rfl
  | _ => cases v <;> exact Iff.rfl

end Literal

-- Whether a keyword that holds no schemas admits a value. Patterns are left to an oracle, and
-- numbers are compared by value.
def plainAdmits (matching : String → String → Bool) (v : Json) : KeywordName → Json → Bool
  | .type, names => (typeNames? names).all fun types => types.any (·.admits v)
  | .constant, value => value.sameValue v
  | .enumeration, .array values => values.any (·.sameValue v)
  | .pattern, .string text =>
    match v with
    | .string s => matching text s
    | _ => true
  | _, _ => true

mutual
-- Whether a schema admits a value, as far as types, constants, enumerations, patterns and
-- alternatives go.
def admitted (matching : String → String → Bool) (v : Json) : Json → Bool
  | .bool b => b
  | .object fields => allAdmit matching v fields
  | _ => false

def allAdmit (matching : String → String → Bool) (v : Json) : List (String × Json) → Bool
  | [] => true
  | (key, value) :: rest =>
    (match KeywordName.ofKey key with
      | .anyOf => oneAdmits matching v value
      | name => plainAdmits matching v name value) && allAdmit matching v rest

def oneAdmits (matching : String → String → Bool) (v : Json) : Json → Bool
  | .array schemas => anyAdmits matching v schemas
  | _ => true

def anyAdmits (matching : String → String → Bool) (v : Json) : List Json → Bool
  | [] => false
  | j :: rest => admitted matching v j || anyAdmits matching v rest
end

def PatternEngine.matching (engine : PatternEngine) (text s : String) : Bool :=
  match engine text with
  | .ok finds => finds s
  | .error _ => false

-- A node that exists in every variant, with which nothing has gone wrong.
structure Node.Proper (engine : PatternEngine) (n : Node) : Prop where
  unrestricted : n.restriction = .unrestricted
  unmisused : n.misuse = []
  readable : n.annotations.patternFlaw? engine = none

-- Kinds of scalars, single ones, and alternatives made of these. An alternative may have a
-- default of its own, as long as that is one for it.
inductive Shape.Scalar (engine : PatternEngine) : Shape Node → Prop
  | string : Scalar engine .string
  | number : Scalar engine .number
  | integer : Scalar engine .integer
  | boolean : Scalar engine .boolean
  | null : Scalar engine .null
  | constant (small : l.IsSmall) : Scalar engine (.constant l)
  | enumeration (members : ∀ l ∈ values, l.isEnumMember = true) (small : ∀ l ∈ values, l.IsSmall) :
      Scalar engine (.enumeration values naming)
  | union (some_ : ms ≠ []) (proper : ∀ n ∈ ms, n.Proper engine) (fitting : ∀ n ∈ ms, ∀ d, n.default? = some d → n.Admits engine d)
      (each : ∀ n ∈ ms, Scalar engine n.shape) : Scalar engine (.union ms)

section
variable {r : Registry} {v : Variant} {scope : Scope} {engine : PatternEngine}

theorem Node.Proper.rebuilt {n : Node} (proper : n.Proper engine) : n.rebuilt n.shape = n := by
  obtain ⟨shape, annotations, optionality, restriction, misuse⟩ := n
  obtain ⟨unrestricted, unmisused, -⟩ := proper
  cases unrestricted
  cases unmisused
  rfl

theorem Node.Proper.projected {n : Node} (proper : n.Proper engine)
    (shape : projectShape r v scope n.shape = pure (some n.shape)) :
    projectNode r v scope n = pure (some n) := by
  have inside : n.restriction.includes v = true := by
    rw [proper.unrestricted]
    rfl
  rw [projectNode_eq, if_pos inside, shape]
  exact congrArg (fun n => (pure (some n) : Probe (Option Node))) proper.rebuilt

theorem projectMembers_kept {ms : List Node} (each : ∀ n ∈ ms, projectNode r v scope n = pure (some n)) :
    projectMembers r v scope ms = pure ms := by
  induction ms with
  | nil => rw [projectMembers]
  | cons n rest ih =>
    rw [projectMembers, each n List.mem_cons_self, ih fun m member => each m (List.mem_cons_of_mem _ member)]
    rfl

theorem Shape.Scalar.projected {s : Shape Node} (scalar : s.Scalar engine) :
    projectShape r v scope s = pure (some s) := by
  induction scalar with
  | @union ms some_ proper _ _ ih =>
    rw [projectShape, projectMembers_kept fun n member => (proper n member).projected (ih n member)]
    cases ms with
    | nil => exact absurd rfl some_
    | cons n rest => rfl
  | _ => exact projectShape_leaf rfl

theorem schemaOf_finished {s : SchemaScope} {n : Node}
    (part : schemaPartOf r s n.annotations.pattern n.shape = pure (schemaPart s.container n.annotations.pattern n.shape)) :
    schemaOf r s n = pure (n.schema s.container) := by
  rw [schemaOf_eq, part, Node.schema_eq]
  rfl

theorem schemasOf_finished {s : SchemaScope} {ms : List Node}
    (each : ∀ n ∈ ms, schemaOf r s n = pure (n.schema s.container)) :
    schemasOf r s ms = pure (ms.map (Node.schema s.container)) := by
  induction ms with
  | nil =>
    rw [schemasOf]
    rfl
  | cons n rest ih =>
    rw [schemasOf, each n List.mem_cons_self, ih fun m member => each m (List.mem_cons_of_mem _ member)]
    rfl

theorem Shape.Scalar.written {shape : Shape Node} (scalar : shape.Scalar engine) (s : SchemaScope)
    (pattern : Option String) :
    schemaPartOf r s pattern shape = pure (schemaPart s.container pattern shape) := by
  induction scalar generalizing pattern with
  | union _ _ _ _ ih =>
    rw [schemaPartOf, schemasOf_finished fun n member => schemaOf_finished (ih n member _), schemaPart, finishedMembers_eq]
    rfl
  | _ =>
    rw [schemaPartOf]
    rfl

theorem nodeSchema_scalar {n : Node} (proper : n.Proper engine) (scalar : n.shape.Scalar engine) (definition : String)
    (c : Container) (m : Memory) :
    r.nodeSchema definition n c m = (.ok (some (n.schema c)), m) := by
  have projected : r.project definition n .external m = (.ok (some n), m) := by
    unfold Registry.project
    rw [proper.projected scalar.projected]
    rfl
  have wrote : schemaOf r ⟨c, [], definition⟩ n ⟨m, []⟩ = (.ok (n.schema c), ⟨m, []⟩) :=
    congrFun (schemaOf_finished (scalar.written _ _)) _
  unfold Registry.nodeSchema
  rw [projected]
  dsimp only
  rw [wrote]

end

section
variable {matching : String → String → Bool} {v : Json}

theorem allAdmit_filter (fields : List (String × Json)) :
    allAdmit matching v fields = allAdmit matching v (fields.filter (isEssential ·.1)) := by
  induction fields with
  | nil => rfl
  | cons f rest ih =>
    obtain ⟨key, value⟩ := f
    rw [List.filter_cons]
    cases chosen : isEssential key with
    | true => rw [if_pos rfl, allAdmit, allAdmit, ih]
    | false =>
      rw [if_neg Bool.false_ne_true, allAdmit, ih]
      unfold isEssential at chosen
      revert chosen
      cases KeywordName.ofKey key <;> first | exact fun _ => Bool.true_and _ | nofun

theorem admitted_schema {n : Node} {shape : Shape Node} {fields : List (String × Json)} (shaped : n.shape = shape)
    (part : schemaPart c n.annotations.pattern shape = .keywords fields) (distinct : (Table.keys fields).Nodup) :
    admitted matching v (n.schema c) = allAdmit matching v fields := by
  rw [Node.schema_eq, shaped, part, Node.annotate_keywords, admitted, allAdmit_filter, n.annotated_essential distinct,
    ← allAdmit_filter]

theorem anyAdmits_iff (js : List Json) : anyAdmits matching v js = true ↔ ∃ j ∈ js, admitted matching v j = true := by
  induction js with
  | nil => simp [anyAdmits]
  | cons j rest ih => simp [anyAdmits, ih]

end

section
variable {engine : PatternEngine}

theorem Node.Proper.mismatch?_iff {n : Node} (proper : n.Proper engine) (s : String) :
    n.annotations.mismatch? engine s = none ↔ ∀ text, n.annotations.pattern = some text → engine.matching text s = true := by
  have readable := proper.readable
  unfold Annotations.patternFlaw? at readable
  unfold Annotations.mismatch? PatternEngine.matching
  cases pattern : n.annotations.pattern with
  | none => simp
  | some text =>
    rw [pattern] at readable
    cases read : engine text with
    | error why => simp [read] at readable
    | ok finds => cases found : finds s <;> simp [read, found]

end

section
variable {matching : String → String → Bool} {v : Json}

theorem allAdmit_type (t : TypeName) (rest : List (String × Json)) :
    allAdmit matching v (("type", .string t.name) :: rest) = (t.admits v && allAdmit matching v rest) := by
  rw [allAdmit]
  refine congrArg (· && _) ?_
  cases t <;> exact Bool.or_false _

theorem admitted_type {n : Node} {shape : Shape Node} (shaped : n.shape = shape) (t : TypeName)
    (part : schemaPart c n.annotations.pattern shape = .ofType t.name) :
    admitted matching v (n.schema c) = t.admits v := by
  rw [admitted_schema shaped part (List.nodup_singleton _), allAdmit_type, allAdmit, Bool.and_true]

theorem allAdmit_single (key : String) (value : Json) : allAdmit matching v [(key, value)] =
    match KeywordName.ofKey key with
      | .anyOf => oneAdmits matching v value
      | name => plainAdmits matching v name value := by
  rw [allAdmit, allAdmit, Bool.and_true]

end

section
variable {engine : PatternEngine}

-- What a node of scalars takes as a default is what its schema admits.
theorem Shape.Scalar.defaultFlaw?_iff {shape : Shape Node} (scalar : shape.Scalar engine) (c : Container) (v : Json)
    {n : Node}
    (proper : n.Proper engine) (shaped : n.shape = shape) :
    n.defaultFlaw? engine v = none ↔ admitted engine.matching v (n.schema c) = true := by
  induction scalar generalizing n with
  | string =>
    rw [defaultFlaw?_string shaped]
    have fields : admitted engine.matching v (n.schema c) = (TypeName.string.admits v &&
        n.annotations.pattern.toList.all fun text => plainAdmits engine.matching v .pattern (.string text)) := by
      refine (admitted_schema shaped rfl ?_).trans ((allAdmit_type .string _).trans ?_)
      · cases n.annotations.pattern <;> simp [Table.keys]
      · cases n.annotations.pattern with
        | none => rfl
        | some text => exact congrArg _ ((allAdmit_single _ _).trans (Bool.and_true _).symm)
    rw [fields]
    cases v with
    | string s => simp [proper.mismatch?_iff, TypeName.admits, plainAdmits]
    | _ => simp [TypeName.admits]
  | number =>
    rw [defaultFlaw?_other (by rw [shaped]; nofun), shaped, admitted_type shaped .number rfl]
    cases v <;> exact Iff.rfl
  | integer =>
    rw [defaultFlaw?_other (by rw [shaped]; nofun), shaped, admitted_type shaped .integer rfl]
    cases v <;> exact Iff.rfl
  | boolean =>
    rw [defaultFlaw?_other (by rw [shaped]; nofun), shaped, admitted_type shaped .boolean rfl]
    cases v <;> exact Iff.rfl
  | null =>
    rw [defaultFlaw?_other (by rw [shaped]; nofun), shaped, admitted_type shaped .null rfl]
    cases v <;> exact Iff.rfl
  | constant small =>
    rw [defaultFlaw?_other (by rw [shaped]; nofun), shaped, admitted_schema shaped rfl (List.nodup_singleton _), allAdmit_single]
    exact Literal.holds_iff small v
  | enumeration _ small =>
    rw [defaultFlaw?_other (by rw [shaped]; nofun), shaped, admitted_schema shaped rfl (List.nodup_singleton _), allAdmit_single]
    change List.any _ _ = true ↔ List.any (List.map _ _) _ = true
    rw [List.any_eq_true, List.any_map, List.any_eq_true]
    exact exists_congr fun l => and_congr_right fun member => Literal.holds_iff (small l member) v
  | union some_ proper' _ _ ih =>
    rw [defaultFlaw?_other (by rw [shaped]; nofun), shaped, admitted_schema shaped rfl (List.nodup_singleton _), allAdmit_single]
    change anyTakesDefault engine v _ = true ↔ anyAdmits engine.matching v (finishedMembers c _) = true
    simp only [anyTakesDefault_iff, anyAdmits_iff, finishedMembers_eq, List.mem_map, exists_exists_and_eq_and]
    exact exists_congr fun m => and_congr_right fun member => ih m member (proper' m member) rfl

theorem Node.Proper.ownFlaw?_eq {n : Node} (proper : n.Proper engine) (place : Place) :
    n.ownFlaw? engine place = n.default?.bind fun value => (n.defaultFlaw? engine value).map fun flaw => ⟨place.child "default", flaw⟩ := by
  unfold Node.ownFlaw?
  rw [proper.unmisused, proper.readable]
  cases n.default? <;> rfl

theorem membersFlaw?_none {ms : List Node} (each : ∀ n ∈ ms, ∀ place, n.firstFlaw? engine place = none)
    (place : Place) (i : Nat) :
    membersFlaw? engine place i ms = none := by
  induction ms generalizing i with
  | nil => rw [membersFlaw?]
  | cons n rest ih =>
    rw [membersFlaw?, each n List.mem_cons_self, ih fun m member => each m (List.mem_cons_of_mem _ member)]
    rfl

theorem Shape.Scalar.flawless {shape : Shape Node} (scalar : shape.Scalar engine) (place : Place) :
    shapeFlaw? engine place shape = none := by
  induction scalar generalizing place with
  | enumeration members _ =>
    rw [shapeFlaw?, List.find?_eq_none.2 fun l member => by rw [members l member]; exact Bool.false_ne_true]
    rfl
  | union _ proper fitting _ ih =>
    rw [shapeFlaw?]
    refine membersFlaw?_none (fun n member place => ?_) place 0
    rw [Node.firstFlaw?_eq, (proper n member).ownFlaw?_eq, ih n member, Option.or_none]
    cases default : n.default? with
    | none => rfl
    | some d =>
      rw [Option.bind_some, (Node.admits_iff d n).1 (fitting n member d default)]
      rfl
  | _ => rw [shapeFlaw?]

theorem Node.Proper.firstFlaw?_default {n : Node} (proper : n.Proper engine) (scalar : n.shape.Scalar engine)
    (v : Json) (place : Place) :
    (n.optionalWith v).firstFlaw? engine place = (n.defaultFlaw? engine v).map fun flaw => ⟨place.child "default", flaw⟩ := by
  have defaulted : (n.optionalWith v).Proper engine := ⟨proper.unrestricted, proper.unmisused, proper.readable⟩
  have inside : shapeFlaw? engine place (n.optionalWith v).shape = none := scalar.flawless place
  have same : (n.optionalWith v).defaultFlaw? engine v = n.defaultFlaw? engine v := by
    obtain ⟨shape, annotations, optionality, restriction, misuse⟩ := n
    unfold Node.optionalWith Node.defaultFlaw?
    rfl
  rw [Node.firstFlaw?_eq, defaulted.ownFlaw?_eq, inside, Option.or_none, ← same]
  rfl

-- Checking a default of scalars and alternatives comes to the same as validating it.
theorem Registry.defaults_admitted (r : Registry) {n : Node} (proper : n.Proper engine) (scalar : n.shape.Scalar engine)
    (definition : String) (c : Container) (m : Memory) :
    ∃ schema, r.nodeSchema definition n c m = (.ok (some schema), m) ∧ ∀ v,
      ((n.optionalWith v).firstFlaw? engine .root = none ↔ admitted engine.matching v schema = true) ∧
      ∀ finding, (n.optionalWith v).firstFlaw? engine .root = some finding → finding.place.text = "/default" := by
  refine ⟨n.schema c, nodeSchema_scalar proper scalar definition c m, fun v => ?_⟩
  rw [proper.firstFlaw?_default scalar]
  refine ⟨?_, fun finding found => ?_⟩
  · rw [Option.map_eq_none_iff]
    exact scalar.defaultFlaw?_iff c v proper rfl
  · obtain ⟨flaw, -, rfl⟩ := Option.map_eq_some_iff.1 found
    change (Place.root.child "default").text = "/default"
    decide

end

def rated : Node :=
  (Node.unionOf [Node.string.pattern "^[a-z]+$", .enumOf [.int ⟨3, by decide, by decide⟩, .string "None"],
    .unionOf [.number, .constantOf (.bool true)]]).title "Rating"

theorem lowercase_readable : (Node.string.pattern "^[a-z]+$").annotations.patternFlaw? Engines.builtIn.pattern = none :=
  Option.isNone_iff_eq_none.1 (by decide +kernel)

theorem rated_scalar : rated.Proper Engines.builtIn.pattern ∧ rated.shape.Scalar Engines.builtIn.pattern := by
  have plain : ∀ n : Node, n.restriction = .unrestricted → n.misuse = [] → n.annotations.pattern = none → n.Proper Engines.builtIn.pattern :=
    fun n unrestricted unmisused none_ => ⟨unrestricted, unmisused, by rw [Annotations.patternFlaw?, none_]⟩
  have bare : ∀ n : Node, n.default? = none → ∀ d, n.default? = some d → n.Admits Engines.builtIn.pattern d := by
    intro n none_ d some_
    cases none_.symm.trans some_
  refine ⟨plain _ rfl rfl rfl, .union (List.cons_ne_nil _ _) ?_ ?_ ?_⟩
  · simp only [List.forall_mem_cons]
    exact ⟨⟨rfl, rfl, lowercase_readable⟩, plain _ rfl rfl rfl, plain _ rfl rfl rfl, List.forall_mem_nil _⟩
  · simp only [List.forall_mem_cons]
    exact ⟨bare _ rfl, bare _ rfl, bare _ rfl, List.forall_mem_nil _⟩
  · simp only [List.forall_mem_cons]
    refine ⟨.string, .enumeration (by decide) ?_, .union (List.cons_ne_nil _ _) ?_ ?_ ?_, List.forall_mem_nil _⟩
    · simp only [List.forall_mem_cons]
      exact ⟨show 3 < 2 ^ 53 by simp, trivial, List.forall_mem_nil _⟩
    · simp only [List.forall_mem_cons]
      exact ⟨plain _ rfl rfl rfl, plain _ rfl rfl rfl, List.forall_mem_nil _⟩
    · simp only [List.forall_mem_cons]
      exact ⟨bare _ rfl, bare _ rfl, List.forall_mem_nil _⟩
    · simp only [List.forall_mem_cons]
      exact ⟨.number, .constant trivial, List.forall_mem_nil _⟩

theorem Registry.defaults_admitted_rated : ∃ schema,
    (Registry.empty .builtIn).nodeSchema "D" rated .defs .blank = (.ok (some schema), .blank) ∧
    ∀ v, (rated.optionalWith v).firstFlaw? Engines.builtIn.pattern .root = none ↔ admitted Engines.builtIn.pattern.matching v schema = true := by
  obtain ⟨schema, written, agree⟩ := (Registry.empty .builtIn).defaults_admitted rated_scalar.1 rated_scalar.2 "D" .defs .blank
  exact ⟨schema, written, fun v => (agree v).1⟩

end TwinShape
