import Mathlib.Logic.Relation
import Mathlib.Order.FixedPoints
import TwinShape.Proofs.Json.Settled
import TwinShape.Schema.Evaluator

namespace TwinShape

-- What whoever checks instances makes of patterns: which texts the older dialect lets
-- pass, and what a text finds if it can be used at all.
structure PatternReading where
  allowed : String → Bool
  search? : String → Option (String → Bool)

-- Keywords that say nothing about instances.
def KeywordName.isIdle : KeywordName → Bool
  | .definitions | .defs | .text | .examples | .deprecated | .other => true
  | _ => false

-- What stands under a keyword in the documents that are written here.
def KeywordName.Takes : KeywordName → Json → Prop
  | .reference, value | .pattern, value | .text, value => ∃ text, value = .string text
  | .type, value => ∃ t : TypeName, value = .string t.name
  | .properties, value | .definitions, value => ∃ entries, value = .object entries ∧ (Table.keys entries).Nodup
  | .required, value => ∃ names, value = Json.strings names ∧ names.Nodup
  | .anyOf, value => ∃ first rest, value = .array (first :: rest)
  | .enumeration, value | .examples, value => ∃ values, value = .array values
  | .deprecated, value => ∃ b, value = .bool b
  | .additional, _ | .items, _ | .constant, _ | .other, _ => True
  | .defs, _ => False

namespace Json

def States (schema : Json) (name : KeywordName) (value : Json) : Prop :=
  ∃ fields key, schema = .object fields ∧ (key, value) ∈ fields ∧ KeywordName.ofKey key = name

def schemasUnder : KeywordName → Json → List Json
  | .items, schema | .additional, schema => [schema]
  | .anyOf, .array schemas => schemas
  | .properties, .object entries | .definitions, .object entries => entries.map (·.2)
  | _, _ => []

def declaredKeys : Json → List String
  | .object fields =>
    match Table.get? fields "properties" with
    | some (.object properties) => Table.keys properties
    | _ => []
  | _ => []

def Holds (s t : Json) : Prop := ∃ name value, s.States name value ∧ t ∈ schemasUnder name value

def Contains (s t : Json) : Prop := ∃ name value, name ≠ .definitions ∧ s.States name value ∧
    t ∈ schemasUnder name value

theorem Contains.holds {s t : Json} (contains : s.Contains t) : s.Holds t := by
  obtain ⟨name, value, -, stated, member⟩ := contains
  exact ⟨name, value, stated, member⟩

-- Somewhere in a document, used or not.
def Within (document s : Json) : Prop := Relation.ReflTransGen Holds document s

def LeadsTo (s document t : Json) : Prop :=
  ∃ text, s.States .reference (.string text) ∧ Pointer.resolve? document text = some t

def Uses (s document t : Json) : Prop := s.Contains t ∨ s.LeadsTo document t

-- The same, while it stays at the instance.
def Becomes (s document t : Json) : Prop :=
  (∃ members, s.States .anyOf (.array members) ∧ t ∈ members) ∨ s.LeadsTo document t

-- No schema of a document comes back to itself without a step into the instance.
def Guarded (document : Json) : Prop := ∀ s, document.Within s →
    Acc (fun after before => before.Becomes document after) s

-- Documents of the few keywords that are written here, each with what belongs under it.
-- References stand alone and lead to schemas of the document.
structure Plain (document : Json) : Prop where
  form : ∀ s, document.Within s → (∃ b, s = .bool b) ∨ ∃ fields, s = .object fields ∧ (Table.keys fields).Nodup
  taken : ∀ s name value, document.Within s → s.States name value → name.Takes value
  known : ∀ fields key value, document.Within (.object fields) → (key, value) ∈ fields → KeywordName.ofKey key = .other →
    key = "default" ∨ .object fields = document ∧ key = "$schema" ∧ value = .string Registry.draft07
  lone : ∀ s reference name value, document.Within s → s.States .reference reference → s.States name value →
    name = .reference ∨ name.isIdle
  led : ∀ s text, document.Within s → s.States .reference (.string text) →
    ∃ t, Pointer.resolve? document text = some t ∧ document.Within t

-- The older dialect asks how every pattern of a document is spelled. Those that checking
-- can come to have to be usable.
structure Usable (p : PatternReading) (document : Json) : Prop where
  allowed : Dialect.ofDocument document = .draft07 → ∀ s text, document.Within s → s.States .pattern (.string text) →
    p.allowed text = true
  readable : ∀ s text, Relation.ReflTransGen (·.Uses document ·) document s → s.States .pattern (.string text) →
    (p.search? text).isSome = true

end Json

section
variable (p : PatternReading) (document : Json)

-- What one keyword of a schema asks of an instance, if it is known which schemas accept
-- which instances.
def Demands (accepts : Json → Json → Prop) (fields : List (String × Json)) (name : KeywordName) (value j : Json) :
    Prop :=
  match name with
  | .reference => ∃ text target, value = .string text ∧ Pointer.resolve? document text = some target ∧ accepts target j
  | .type => ∃ names, typeNames? value = some names ∧ names.any (·.admits j) = true
  | .properties => ∀ declared own, value = .object declared → j = .object own →
      ∀ e ∈ declared, ∀ k, Table.get? own e.1 = some k → accepts e.2 k
  | .additional => ∀ own, j = .object own → ∀ f ∈ own, f.1 ∉ (Json.object fields).declaredKeys → accepts value f.2
  | .required => ∀ names own, requiredNames? value = some names → j = .object own →
      ∀ name ∈ names, ∃ k, Table.get? own name = some k
  | .items => ∀ items, j = .array items → ∀ k ∈ items, accepts value k
  | .anyOf => ∃ schemas, value = .array schemas ∧ ∃ s ∈ schemas, accepts s j
  | .enumeration => ∃ values, value = .array values ∧ values.any (·.sameValue j) = true
  | .constant => meetsConstant value j = true
  | .pattern => ∀ text s, value = .string text → j = .string s → ∃ found, p.search? text = some found ∧ found s = true
  | .definitions | .defs | .text | .examples | .deprecated | .other => True

def Accepting (accepts : Json → Json → Prop) (schema j : Json) : Prop :=
  match schema with
  | .bool b => b = true
  | .object fields => ∀ f ∈ fields, Demands p document accepts fields (.ofKey f.1) f.2 j
  | _ => False

variable {p document} in
theorem Demands.imp {accepts accepts' : Json → Json → Prop} (le : ∀ s j, accepts s j → accepts' s j)
    (demands : Demands p document accepts fields name value j) : Demands p document accepts' fields name value j := by
  cases name with
  | reference =>
    obtain ⟨text, target, written, found, accepted⟩ := demands
    exact ⟨text, target, written, found, le _ _ accepted⟩
  | properties => exact fun declared own written same e member k found => le _ _ (demands declared own written same e member k found)
  | additional => exact fun own same f member other => le _ _ (demands own same f member other)
  | items => exact fun items same k member => le _ _ (demands items same k member)
  | anyOf =>
    obtain ⟨schemas, written, s, member, accepted⟩ := demands
    exact ⟨schemas, written, s, member, le _ _ accepted⟩
  | _ => exact demands

def accepting : (Json → Json → Prop) →o (Json → Json → Prop) where
  toFun := Accepting p document
  monotone' accepts accepts' le schema j accepted := by
    cases schema with
    | object fields => exact fun f member => (accepted f member).imp le
    | _ => exact accepted

-- What a schema of a document accepts: the least that its keywords ask for.
def Accepts : Json → Json → Prop := OrderHom.lfp (accepting p document)

end

section
variable {p : PatternReading} {document : Json}

theorem accepts_iff {schema j : Json} : Accepts p document schema j ↔
    Accepting p document (Accepts p document) schema j :=
  iff_of_eq (congrFun₂ (OrderHom.map_lfp (accepting p document)) schema j).symm

theorem Accepts.least {accepts : Json → Json → Prop} (closed : ∀ s j, Accepting p document accepts s j → accepts s j)
    {schema j : Json} (accepted : Accepts p document schema j) : accepts schema j :=
  OrderHom.lfp_le (accepting p document) closed schema j accepted

theorem accepts_bool {b : Bool} {j : Json} : Accepts p document (.bool b) j ↔ b = true := accepts_iff

theorem accepts_object {fields : List (String × Json)} {j : Json} : Accepts p document (.object fields) j ↔
    ∀ f ∈ fields, Demands p document (Accepts p document) fields (.ofKey f.1) f.2 j := accepts_iff

end

-- What is relied on about whoever checks instances against documents.
structure SchemaEngine.Lawful (engine : SchemaEngine) (p : PatternReading) : Prop where
  usable : ∀ document : Json, document.Plain → ((∃ check, engine document = .ok check) ↔ document.Usable p)
  sound : ∀ (document : Json) check j found, document.Plain → engine document = .ok check → j.Settled →
    (check j).all? = some found → (found = [] ↔ Accepts p document document j)
  ends : ∀ (document : Json) check j, document.Plain → document.Guarded → engine document = .ok check → j.Settled →
    (check j).ends = true

end TwinShape
