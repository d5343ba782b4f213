import TwinShape.Proofs.Node.Tree
import TwinShape.Proofs.Schema.Acceptance
import TwinShape.Proofs.Schema.Fields

namespace TwinShape

-- Documents that are as a shape describes them. References mean the shape of their name.
-- `equals` compares constants.
inductive Conforms (reading : PatternReading) (equals : Json → Json → Bool) (shapes : Table Node) : Node → Json → Prop
  | object
      (present : ∀ p ∈ o.properties, p.value.isOptional = false → ∃ j, Table.get? fields p.name = some j)
      (declared : ∀ p ∈ o.properties, ∀ j, Table.get? fields p.name = some j → Conforms reading equals shapes p.value j)
      (forbidden : o.additional = .forbidden → ∀ f ∈ fields, f.1 ∈ o.properties.map (·.name))
      (checked : ∀ rest, o.additional = .shape rest → ∀ f ∈ fields, f.1 ∉ o.properties.map (·.name) →
        Conforms reading equals shapes rest f.2) :
      Conforms reading equals shapes ⟨.object o, annotations, optionality, restriction, misuse⟩ (.object fields)
  | array (each : ∀ j ∈ items, Conforms reading equals shapes item j) :
      Conforms reading equals shapes ⟨.array item, annotations, optionality, restriction, misuse⟩ (.array items)
  | union (member : m ∈ members) (alternative : Conforms reading equals shapes m j) :
      Conforms reading equals shapes ⟨.union members, annotations, optionality, restriction, misuse⟩ j
  | enumeration (listed : ∃ value ∈ values, value.toJson.sameValue j = true) :
      Conforms reading equals shapes ⟨.enumeration values naming, annotations, optionality, restriction, misuse⟩ j
  | constant (same : equals value.toJson j = true) :
      Conforms reading equals shapes ⟨.constant value, annotations, optionality, restriction, misuse⟩ j
  | string (matched : ∀ text, annotations.pattern = some text →
        ∃ found, reading.search? text = some found ∧ found s = true) :
      Conforms reading equals shapes ⟨.string, annotations, optionality, restriction, misuse⟩ (.string s)
  | number (n : Number) :
      Conforms reading equals shapes ⟨.number, annotations, optionality, restriction, misuse⟩ (.number n)
  | integer (whole : j.isInteger = true) :
      Conforms reading equals shapes ⟨.integer, annotations, optionality, restriction, misuse⟩ j
  | boolean (b : Bool) :
      Conforms reading equals shapes ⟨.boolean, annotations, optionality, restriction, misuse⟩ (.bool b)
  | null : Conforms reading equals shapes ⟨.null, annotations, optionality, restriction, misuse⟩ .null
  | reference (found : shapes.get? name = some n) (meant : Conforms reading equals shapes n j) :
      Conforms reading equals shapes ⟨.reference name, annotations, optionality, restriction, misuse⟩ j
  | linked (side : Conforms reading equals shapes schema j) :
      Conforms reading equals shapes ⟨.linked declaration schema, annotations, optionality, restriction, misuse⟩ j

-- The same in one step, up to what the nodes inside of a shape and the names in it mean.
def Shape.Fits (reading : PatternReading) (equals : Json → Json → Bool) (meant : String → Json → Prop)
    (inner : Node → Json → Prop) (pattern : Option String) (shape : Shape Node) (j : Json) : Prop :=
  match shape with
  | .object o => ∃ fields, j = .object fields ∧
      (∀ p ∈ o.properties, p.value.isOptional = false → ∃ k, Table.get? fields p.name = some k) ∧
      (∀ p ∈ o.properties, ∀ k, Table.get? fields p.name = some k → inner p.value k) ∧
      (o.additional = .forbidden → ∀ f ∈ fields, f.1 ∈ o.properties.map (·.name)) ∧
      ∀ rest, o.additional = .shape rest → ∀ f ∈ fields, f.1 ∉ o.properties.map (·.name) → inner rest f.2
  | .array item => ∃ items, j = .array items ∧ ∀ k ∈ items, inner item k
  | .union members => ∃ m ∈ members, inner m j
  | .enumeration values _ => ∃ value ∈ values, value.toJson.sameValue j = true
  | .constant value => equals value.toJson j = true
  | .string => ∃ s, j = .string s ∧ ∀ text, pattern = some text → ∃ found, reading.search? text = some found ∧ found s = true
  | .number => ∃ n, j = .number n
  | .integer => j.isInteger = true
  | .boolean => ∃ b, j = .bool b
  | .null => j = .null
  | .reference name => meant name j
  | .linked _ schema => inner schema j
  | .raw .. | .imported .. => False

theorem Shape.Fits.imp {reading : PatternReading} {equals : Json → Json → Bool} {meant meant' : String → Json → Prop}
    {inner inner' : Node → Json → Prop} {pattern : Option String} {shape : Shape Node}
    (fits : shape.Fits reading equals meant inner pattern j)
    (names : ∀ name k, shape = .reference name → meant name k → meant' name k)
    (nodes : ∀ c ∈ shape.writtenNodes, ∀ k, inner c k → inner' c k) : shape.Fits reading equals meant' inner' pattern j := by
  cases shape with
  | object o =>
    obtain ⟨fields, same, present, declared, forbidden, checked⟩ := fits
    refine ⟨fields, same, present, fun p member k found => ?_, forbidden, fun rest same f member other => ?_⟩
    · exact nodes _ (List.mem_append_left _ (List.mem_map_of_mem member)) k (declared p member k found)
    · refine nodes rest (List.mem_append_right _ ?_) f.2 (checked rest same f member other)
      rw [same]
      exact List.mem_cons_self
  | array item =>
    obtain ⟨items, same, each⟩ := fits
    exact ⟨items, same, fun k member => nodes item List.mem_cons_self k (each k member)⟩
  | union members =>
    obtain ⟨m, member, alternative⟩ := fits
    exact ⟨m, member, nodes m member _ alternative⟩
  | reference name => exact names name _ rfl fits
  | linked declaration schema => exact nodes schema List.mem_cons_self _ fits
  | _ => exact fits

section
variable {reading : PatternReading} {equals : Json → Json → Bool} {shapes : Table Node}

theorem conforms_iff {n : Node} : Conforms reading equals shapes n j ↔
    n.shape.Fits reading equals (fun name j => ∃ m, shapes.get? name = some m ∧ Conforms reading equals shapes m j)
      (Conforms reading equals shapes) n.annotations.pattern j := by
  constructor
  · intro conforms
    cases conforms with
    | object present declared forbidden checked => exact ⟨_, rfl, present, declared, forbidden, checked⟩
    | array each => exact ⟨_, rfl, each⟩
    | union member alternative => exact ⟨_, member, alternative⟩
    | enumeration listed => exact listed
    | constant same => exact same
    | string matched => exact ⟨_, rfl, matched⟩
    | number n => exact ⟨n, rfl⟩
    | integer whole => exact whole
    | boolean b => exact ⟨b, rfl⟩
    | null => exact rfl
    | reference found meant => exact ⟨_, found, meant⟩
    | linked side => exact side
  · intro fits
    obtain ⟨shape, annotations, optionality, restriction, misuse⟩ := n
    cases shape with
    | object o =>
      obtain ⟨fields, rfl, present, declared, forbidden, checked⟩ := fits
      exact .object present declared forbidden checked
    | array item =>
      obtain ⟨items, rfl, each⟩ := fits
      exact .array each
    | union members =>
      obtain ⟨m, member, alternative⟩ := fits
      exact .union member alternative
    | enumeration => exact .enumeration fits
    | constant => exact .constant fits
    | string =>
      obtain ⟨s, rfl, matched⟩ := fits
      exact .string matched
    | number =>
      obtain ⟨n, rfl⟩ := fits
      exact .number n
    | integer => exact .integer fits
    | boolean =>
      obtain ⟨b, rfl⟩ := fits
      exact .boolean b
    | null =>
      cases fits
      exact .null
    | reference name =>
      obtain ⟨m, found, meant⟩ := fits
      exact .reference found meant
    | linked declaration schema => exact .linked fits
    | raw | imported => cases fits

end

namespace TypeName

theorem admits_object {j : Json} : object.admits j = true ↔ ∃ fields, j = .object fields := by
  cases j <;> simp [admits]

theorem admits_array {j : Json} : array.admits j = true ↔ ∃ items, j = .array items := by
  cases j <;> simp [admits]

theorem admits_string {j : Json} : string.admits j = true ↔ ∃ s, j = .string s := by
  cases j <;> simp [admits]

theorem admits_number {j : Json} : number.admits j = true ↔ ∃ n, j = .number n := by
  cases j <;> simp [admits]

theorem admits_boolean {j : Json} : boolean.admits j = true ↔ ∃ b, j = .bool b := by
  cases j <;> simp [admits]

theorem admits_null {j : Json} : null.admits j = true ↔ j = .null := by
  cases j <;> simp [admits]

end TypeName
end TwinShape
