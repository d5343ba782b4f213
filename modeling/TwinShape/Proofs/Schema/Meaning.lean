import TwinShape.Proofs.Projection.Bare
import TwinShape.Proofs.Projection.Unison
import TwinShape.Proofs.Schema.Conformance
import TwinShape.Proofs.Schema.Names
import TwinShape.Proofs.Schema.Objects

namespace TwinShape

theorem TypeName.ofName?_name (t : TypeName) : TypeName.ofName? t.name = some t := by cases t <;> rfl

theorem typeNames?_name (t : TypeName) : typeNames? (.string t.name) = some [t] := by
  rw [typeNames?, t.ofName?_name]
  rfl

theorem mapM_strings {f : Json → Option String} (each : ∀ name, f (.string name) = some name) (names : List String) :
    (names.map Json.string).mapM f = some names := by
  induction names with
  | nil => rfl
  | cons name rest ih =>
    rw [List.map_cons, List.mapM_cons, each, ih]
    rfl

theorem requiredNames?_strings {names : List String} (distinct : names.Nodup) :
    requiredNames? (Json.strings names) = some names := by
  unfold requiredNames? Json.strings
  dsimp only
  rw [mapM_strings fun _ => rfl]
  exact if_pos distinct

theorem Shape.Tidy.distinct {s : Shape Node} (tidy : s.Tidy) : s.Distinct := by
  rintro o rfl
  exact tidy.1

-- The node that a chain of links ends in.
def Node.core (n : Node) : Node :=
  match _shape : n.shape with
  | .linked _ schema => schema.core
  | _ => n
termination_by sizeOf n
decreasing_by exact Node.sizeOf_child (Node.child_of_shape _shape (List.mem_cons_of_mem _ List.mem_cons_self))

namespace Node

theorem core_linked {n declaration side : Node} (shape : n.shape = .linked declaration side) : n.core = side.core := by
  rw [core]
  split
  · rename_i same
    cases shape.symm.trans same
    rfl
  · rename_i other
    exact absurd shape (other _ _)

theorem core_other {n : Node} (own : ∀ declaration schema, n.shape ≠ .linked declaration schema) : n.core = n := by
  rw [core]
  split
  · rename_i same
    exact absurd same (own _ _)
  · rfl

-- What holds of a node that is no link, and of links as it does of their sides.
theorem core_induction {motive : Node → Prop}
    (own : ∀ n : Node, (∀ declaration schema, n.shape ≠ .linked declaration schema) → n.core = n → motive n)
    (linked : ∀ n side declaration : Node, n.shape = .linked declaration side → n.core = side.core → motive side → motive n)
    (n : Node) : motive n := by
  by_cases plain : ∀ declaration side, n.shape ≠ .linked declaration side
  · exact own n plain (core_other plain)
  · cases shape : n.shape with
    | linked declaration side => exact linked n side declaration shape (core_linked shape) (core_induction own linked side)
    | _ => exact absurd (fun declaration side same => by cases shape.symm.trans same) plain
termination_by sizeOf n
decreasing_by exact Node.sizeOf_child (Node.child_of_shape shape (List.mem_cons_of_mem _ List.mem_cons_self))

theorem core_own (n : Node) : ∀ declaration schema, n.core.shape ≠ .linked declaration schema := by
  induction n using core_induction with
  | own n plain same => rwa [same]
  | linked n side declaration shape same ih => rwa [same]

theorem core_sizeOf (n : Node) : sizeOf n.core ≤ sizeOf n := by
  induction n using core_induction with
  | own n plain same => rw [same]
  | linked n side declaration shape same ih =>
    rw [same]
    exact ih.trans (Node.sizeOf_child (Node.child_of_shape shape (List.mem_cons_of_mem _ List.mem_cons_self))).le

theorem core_of_children {A : Node → Prop} (below : ∀ n : Node, A n → ∀ c ∈ n.shape.writtenNodes, A c) {n : Node}
    (here : A n) :
    A n.core := by
  induction n using core_induction with
  | own n plain same => rwa [same]
  | linked n side declaration shape same ih =>
    rw [same]
    refine ih (below n here side ?_)
    rw [shape]
    exact List.mem_cons_self

-- The nodes that are written inside of a node, links aside.
def inner (n : Node) : List Node := n.core.shape.writtenNodes

theorem sizeOf_inner {n : Node} (member : c ∈ n.inner) : sizeOf c < sizeOf n :=
  (Node.sizeOf_child (Shape.child_of_written member)).trans_le n.core_sizeOf

theorem patterns_core (n : Node) : n.patterns = n.core.ownPatterns ++ n.inner.flatMap Node.patterns := by
  induction n using core_induction with
  | own n _ same => rw [inner, same, patterns_eq]
  | linked n side declaration shape same ih =>
    have bare : n.ownPatterns = [] := by
      unfold Node.ownPatterns
      rw [shape]
    rw [inner, same, patterns_eq, bare, shape]
    exact (List.append_nil _).trans ih

theorem fields_wraps (c : Container) (n : Node) :
    Wraps (n.fields c) (shapeFields c n.core.annotations.pattern n.core.shape) := by
  induction n using core_induction with
  | own n plain same =>
    rw [same, Node.fields_eq]
    exact n.annotated_wraps (shapeFields_wraps_self c _ plain)
  | linked n side declaration shape same ih =>
    rw [same, Node.fields_eq, shape, shapeFields]
    exact n.annotated_wraps ih

end Node

-- Whatever a schema is written of, and how: names that it refers to have schemas.
structure Node.Orderly (names : List String) (n : Node) : Prop where
  written : n.Written names
  tidy : n.Each (·.shape.Tidy)

namespace Node.Orderly
variable {names : List String} {n : Node}

theorem child (orderly : n.Orderly names) (member : c ∈ n.shape.writtenNodes) : c.Orderly names := by
  obtain ⟨⟨_, _, inside⟩, tidy⟩ := orderly
  exact ⟨inside c member, (Node.each_iff.1 tidy).2 c (Shape.child_of_written member)⟩

theorem core (orderly : n.Orderly names) :
    n.core.Orderly names := Node.core_of_children (fun _ orderly _ => orderly.child) orderly

theorem inner (orderly : n.Orderly names) (member : c ∈ n.inner) : c.Orderly names := orderly.core.child member

theorem expressible (orderly : n.Orderly names) : n.shape.isExpressible := by
  obtain ⟨⟨expressible, _, _⟩, _⟩ := orderly
  exact expressible

theorem named (orderly : n.Orderly names) (same : n.shape = .reference name) : name ∈ names := by
  obtain ⟨⟨_, known, _⟩, _⟩ := orderly
  refine known name ?_
  unfold Node.referenceName?
  rw [same]

theorem here (orderly : n.Orderly names) : n.shape.Tidy := (Node.each_iff.1 orderly.tidy).1

end Node.Orderly

section
variable {p : PatternReading} {document : Json} {accepts : Json → Json → Prop} {fields : List (String × Json)} {j : Json}

theorem demands_type (t : TypeName) :
    Demands p document accepts fields (.ofKey "type") (.string t.name) j ↔ t.admits j = true := by
  constructor
  · rintro ⟨names, read, admitted⟩
    cases (typeNames?_name t).symm.trans read
    exact (Bool.or_false _).symm.trans admitted
  · exact fun admitted => ⟨[t], typeNames?_name t, (Bool.or_false _).trans admitted⟩

theorem demands_idle {name : KeywordName} (idle : name.isIdle) (value : Json) :
    Demands p document accepts fields name value j := by
  cases name <;> trivial

theorem accepting_single {key : String} {value : Json} : Accepting p document accepts (.object [(key, value)]) j ↔
    Demands p document accepts [(key, value)] (.ofKey key) value j := List.forall_mem_singleton

theorem accepting_type (t : TypeName) :
    Accepting p document accepts (.object [("type", .string t.name)]) j ↔ t.admits j = true :=
  accepting_single.trans (demands_type t)

theorem accepting_pair {first second : String × Json} : Accepting p document accepts (.object [first, second]) j ↔
    Demands p document accepts [first, second] (.ofKey first.1) first.2 j ∧
      Demands p document accepts [first, second] (.ofKey second.1) second.2 j := by
  change (∀ f ∈ [first, second], Demands p document accepts [first, second] (.ofKey f.1) f.2 j) ↔ _
  rw [List.forall_mem_cons, List.forall_mem_singleton]

theorem accepting_essential {keywords : List (String × Json)} (essential : fields.filter (isEssential ·.1) = keywords) :
    Accepting p document accepts (.object fields) j ↔ Accepting p document accepts (.object keywords) j := by
  have declared : (Json.object fields).declaredKeys = (Json.object keywords).declaredKeys := by
    rw [Json.declaredKeys, Json.declaredKeys, ← essential, Table.get?_filter (p := isEssential) rfl]
  have each : ∀ f : String × Json, Demands p document accepts fields (.ofKey f.1) f.2 j ↔
      Demands p document accepts keywords (.ofKey f.1) f.2 j := by
    intro f
    unfold Demands
    rw [declared]
  change (∀ f ∈ fields, _) ↔ ∀ f ∈ keywords, _
  constructor
  · intro all f member
    rw [← essential] at member
    exact (each f).1 (all f (List.mem_filter.1 member).1)
  · intro all f member
    cases chosen : isEssential f.1 with
    | true => exact (each f).2 (all f (essential ▸ List.mem_filter.2 ⟨member, chosen⟩))
    | false =>
      refine demands_idle ?_ f.2
      unfold isEssential at chosen
      simpa using chosen

theorem Node.accepting_written (c : Container) (n : Node) : Accepting p document accepts (n.written c) j ↔
    Accepting p document accepts (.object (shapeFields c n.core.annotations.pattern n.core.shape)) j :=
  accepting_essential (n.fields_wraps c).essential

end

theorem shapeFields_object {c : Container} {o : ObjectShape Node} {pattern : Option String}
    (distinct : (o.properties.map (·.name)).Nodup) : shapeFields c pattern (.object o) =
      objectFields (o.properties.map fun p => (p.name, p.value.written c))
        ((o.properties.filter fun p => !p.value.isOptional).map (·.name)) (additionalFields c o.additional) := by
  obtain ⟨ps, a, parents⟩ := o
  have keys : ((propertyFields c ps).map (·.1)).Nodup := by
    rw [propertyFields_eq, List.map_map]
    exact distinct
  rw [shapeFields, objectKeywords_eq keys, propertyFields_eq, List.map_map, List.filter_map, List.map_map]
  rfl

section
variable {p : PatternReading} {document : Json} {accepts : Json → Json → Prop}
  (bool : ∀ b k, accepts (.bool b) k ↔ b = true)
include bool

theorem accepting_object {o : ObjectShape Node} {pattern : Option String}
    (distinct : (o.properties.map (·.name)).Nodup) {j : Json} :
    Accepting p document accepts (.object (shapeFields .definitions pattern (.object o))) j ↔
      (Shape.object o).Fits p meetsConstant (fun name j => ∃ t, Pointer.resolve? document (Container.definitions.pointer name) = some t ∧ accepts t j)
        (fun n => accepts (n.written .definitions)) pattern j := by
  rw [shapeFields_object distinct]
  obtain ⟨ps, a, parents⟩ := o
  have required : ((ps.filter fun p => !p.value.isOptional).map (·.name)).Nodup := (List.filter_sublist.map _).nodup distinct
  generalize fields_eq : objectFields _ _ _ = fields
  have declared : (Json.object fields).declaredKeys = ps.map (·.name) := by
    rw [← fields_eq, Json.declaredKeys_eq (objectFields_properties _ _ _), keys_properties]
  have all : Accepting p document accepts (.object fields) j ↔
      ∀ f ∈ fields, Demands p document accepts fields (.ofKey f.1) f.2 j := Iff.rfl
  rw [all]
  nth_rewrite 1 [← fields_eq]
  refine objectFields_iff.trans ((and_congr_left' (demands_type .object)).trans ?_)
  rw [TypeName.admits_object]
  constructor
  · rintro ⟨⟨own, same⟩, properties, needed, others⟩
    refine ⟨own, same, ?_, ?_, ?_, ?_⟩
    · intro p member demanded
      have listed : p.name ∈ (ps.filter fun p => !p.value.isOptional).map (·.name) :=
        List.mem_map_of_mem (List.mem_filter.2 ⟨member, by rw [demanded]; rfl⟩)
      exact needed (List.ne_nil_of_mem listed) _ own (requiredNames?_strings required) same _ listed
    · intro p member k found
      have entry := List.mem_map_of_mem (f := fun p : Property Node => (p.name, p.value.written .definitions)) member
      exact properties (List.ne_nil_of_mem entry) _ own rfl same _ entry k found
    · rintro rfl f member
      by_contra other
      have refused := others own same f member (declared ▸ other)
      exact Bool.false_ne_true ((bool false _).1 refused)
    · rintro rest rfl f member other
      exact others own same f member (declared ▸ other)
  · rintro ⟨own, rfl, present, each, forbidden, checked⟩
    refine ⟨⟨own, rfl⟩, fun _ => ?_, fun _ => ?_, ?_⟩
    · rintro _ _ ⟨⟩ ⟨⟩ e member k found
      obtain ⟨p, listed, rfl⟩ := List.mem_map.1 member
      exact each p listed k found
    · rintro names _ read ⟨⟩ name member
      cases (requiredNames?_strings required).symm.trans read
      obtain ⟨p, listed, rfl⟩ := List.mem_map.1 member
      obtain ⟨inside, demanded⟩ := List.mem_filter.1 listed
      exact present p inside (by simpa using demanded)
    · rintro _ ⟨⟩ f member other
      rw [declared] at other
      cases a with
      | forbidden => exact absurd (forbidden rfl f member) other
      | allowed => exact (bool true _).2 rfl
      | shape rest => exact checked rest rfl f member other

theorem accepting_shape {shape : Shape Node} {pattern : Option String}
    (own : ∀ declaration schema, shape ≠ .linked declaration schema)
    (expressible : shape.isExpressible) (distinct : shape.Distinct) {j : Json} :
    Accepting p document accepts (.object (shapeFields .definitions pattern shape)) j ↔
      shape.Fits p meetsConstant (fun name j => ∃ t, Pointer.resolve? document (Container.definitions.pointer name) = some t ∧ accepts t j)
        (fun n => accepts (n.written .definitions)) pattern j := by
  cases shape with
  | object o => exact accepting_object bool (distinct o rfl)
  | array item =>
    rw [shapeFields, accepting_pair]
    refine (and_congr_left' (demands_type .array)).trans ?_
    rw [TypeName.admits_array]
    constructor
    · rintro ⟨⟨items, rfl⟩, each⟩
      exact ⟨items, rfl, each items rfl⟩
    · rintro ⟨items, rfl, each⟩
      refine ⟨⟨items, rfl⟩, ?_⟩
      rintro _ ⟨⟩
      exact each
  | union members =>
    rw [shapeFields, accepting_single, memberFields_eq]
    constructor
    · rintro ⟨_, ⟨⟩, s, member, accepted⟩
      obtain ⟨m, listed, rfl⟩ := List.mem_map.1 member
      exact ⟨m, listed, accepted⟩
    · rintro ⟨m, listed, accepted⟩
      exact ⟨_, rfl, _, List.mem_map_of_mem listed, accepted⟩
  | enumeration values naming =>
    rw [shapeFields, accepting_single]
    constructor
    · rintro ⟨_, ⟨⟩, found⟩
      rw [List.any_map, List.any_eq_true] at found
      exact found
    · intro found
      refine ⟨_, rfl, ?_⟩
      rw [List.any_map, List.any_eq_true]
      exact found
  | constant value =>
    rw [shapeFields, accepting_single]
    rfl
  | string =>
    cases pattern with
    | none =>
      refine (accepting_type .string).trans (TypeName.admits_string.trans (exists_congr fun s => ?_))
      refine (and_iff_left ?_).symm
      rintro _ ⟨⟩
    | some text =>
      rw [shapeFields, Option.toList_some, List.map_singleton, accepting_pair]
      refine (and_congr_left' (demands_type .string)).trans ?_
      rw [TypeName.admits_string]
      constructor
      · rintro ⟨⟨s, rfl⟩, matched⟩
        refine ⟨s, rfl, ?_⟩
        rintro _ ⟨⟩
        exact matched text s rfl rfl
      · rintro ⟨s, rfl, matched⟩
        refine ⟨⟨s, rfl⟩, ?_⟩
        rintro _ _ ⟨⟩ ⟨⟩
        exact matched text rfl
  | number => exact (accepting_type .number).trans TypeName.admits_number
  | integer =>
    refine (accepting_type .integer).trans ?_
    rw [TypeName.admits]
    rfl
  | boolean => exact (accepting_type .boolean).trans TypeName.admits_boolean
  | null => exact (accepting_type .null).trans TypeName.admits_null
  | reference name =>
    rw [shapeFields, accepting_single]
    constructor
    · rintro ⟨_, t, ⟨⟩, found, accepted⟩
      exact ⟨t, found, accepted⟩
    · rintro ⟨t, found, accepted⟩
      exact ⟨_, t, rfl, found, accepted⟩
  | linked declaration schema => exact absurd rfl (own _ _)
  | raw | imported => cases expressible

end

-- A document that keeps the schemas of these shapes where references to them point.
structure Keeps (document : Json) (shapes : Table Node) : Prop where
  orderly : ∀ name n, shapes.get? name = some n → n.Orderly shapes.keys
  place : ∀ name n, shapes.get? name = some n →
    Pointer.resolve? document (Container.definitions.pointer name) = some (n.written .definitions)

section
variable {p : PatternReading} {document : Json} {shapes : Table Node}

theorem conforms_core {n : Node} : Conforms p meetsConstant shapes n j ↔ Conforms p meetsConstant shapes n.core j := by
  induction n using Node.core_induction with
  | own n _ same => rw [same]
  | linked n side declaration shape same ih =>
    rw [same, ← ih, conforms_iff, shape]
    rfl

theorem accepts_core {n : Node} (orderly : n.Orderly shapes.keys) : Accepts p document (n.written .definitions) j ↔
    n.core.shape.Fits p meetsConstant
      (fun name j => ∃ t, Pointer.resolve? document (Container.definitions.pointer name) = some t ∧ Accepts p document t j)
      (fun n => Accepts p document (n.written .definitions)) n.core.annotations.pattern j := by
  rw [accepts_iff, n.accepting_written, accepting_shape (fun b k => accepts_bool) n.core_own orderly.core.expressible
    orderly.core.here.distinct]

theorem accepts_own {n : Node} (orderly : n.Orderly shapes.keys)
    (own : ∀ declaration side, n.shape ≠ .linked declaration side)
    (fits : n.shape.Fits p meetsConstant
      (fun name j => ∃ t, Pointer.resolve? document (Container.definitions.pointer name) = some t ∧ Accepts p document t j)
      (fun n => Accepts p document (n.written .definitions)) n.annotations.pattern j) : Accepts p document (n.written .definitions) j := by
  rw [accepts_core orderly, Node.core_other own]
  exact fits

variable (keeps : Keeps document shapes)
include keeps

-- A schema accepts what conforms to its node.
theorem Keeps.accepts (n : Node) (orderly : n.Orderly shapes.keys) (conforms : Conforms p meetsConstant shapes n j) :
    Accepts p document (n.written .definitions) j := by
  induction conforms with
  | object present declared forbidden checked ih₁ ih₂ =>
    refine accepts_own orderly nofun ⟨_, rfl, present, fun p member k found => ?_, forbidden, fun rest same f member other => ?_⟩
    · exact ih₁ p member k found (orderly.child (List.mem_append_left _ (List.mem_map_of_mem member)))
    · refine ih₂ rest same f member other (orderly.child (List.mem_append_right _ ?_))
      rw [same]
      exact List.mem_cons_self
  | array each ih => exact accepts_own orderly nofun ⟨_, rfl, fun k member => ih k member (orderly.child List.mem_cons_self)⟩
  | union member alternative ih => exact accepts_own orderly nofun ⟨_, member, ih (orderly.child member)⟩
  | reference found meant ih =>
    exact accepts_own orderly nofun ⟨_, keeps.place _ _ found, ih (keeps.orderly _ _ found)⟩
  | linked side ih =>
    have inner := ih (orderly.child List.mem_cons_self)
    rw [accepts_core (orderly.child List.mem_cons_self)] at inner
    rw [accepts_core orderly, Node.core_linked rfl]
    exact inner
  | enumeration listed => exact accepts_own orderly nofun listed
  | constant same => exact accepts_own orderly nofun same
  | string matched => exact accepts_own orderly nofun ⟨_, rfl, matched⟩
  | number n => exact accepts_own orderly nofun ⟨n, rfl⟩
  | integer whole => exact accepts_own orderly nofun whole
  | boolean b => exact accepts_own orderly nofun ⟨b, rfl⟩
  | null => exact accepts_own orderly nofun rfl

-- What a schema accepts conforms to every node that it is the schema of.
theorem Keeps.conforms {schema : Json} (accepted : Accepts p document schema j) :
    ∀ n : Node, n.Orderly shapes.keys → schema = n.written .definitions → Conforms p meetsConstant shapes n j := by
  let Right (schema j : Json) : Prop := (∀ b, schema = .bool b → b = true) ∧
    ∀ n : Node, n.Orderly shapes.keys → schema = n.written .definitions → Conforms p meetsConstant shapes n j
  suffices right : Right schema j from right.2
  refine accepted.least fun schema j step => ⟨?_, ?_⟩
  · rintro b rfl
    exact step
  · rintro n orderly rfl
    have bool : ∀ b k, Right (.bool b) k ↔ b = true := by
      intro b k
      refine ⟨fun right => right.1 b rfl, ?_⟩
      rintro rfl
      exact ⟨by rintro _ ⟨⟩; rfl, fun _ _ same => nomatch same⟩
    rw [n.accepting_written, accepting_shape bool n.core_own orderly.core.expressible orderly.core.here.distinct] at step
    refine conforms_core.2 (conforms_iff.2 (step.imp ?_ ?_))
    · rintro name k same ⟨t, found, -, right⟩
      obtain ⟨m, known⟩ := Table.mem_keys_iff.1 (orderly.core.named same)
      cases (keeps.place name m known).symm.trans found
      exact ⟨m, known, right m (keeps.orderly name m known) rfl⟩
    · exact fun c member k right => right.2 c (orderly.inner member) rfl

theorem Keeps.accepts_iff {n : Node} (orderly : n.Orderly shapes.keys) :
    Accepts p document (n.written .definitions) j ↔ Conforms p meetsConstant shapes n j :=
  ⟨fun accepted => keeps.conforms accepted n orderly rfl, keeps.accepts n orderly⟩

end
end TwinShape
