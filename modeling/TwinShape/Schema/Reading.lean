import TwinShape.Pattern.SchemaReader
import TwinShape.Registry.Basic
import TwinShape.Schema.Emission
import TwinShape.Schema.Pointer
import TwinShape.Schema.Rule

namespace TwinShape

inductive Dialect where
  | draft07 | draft2020
deriving DecidableEq

namespace Dialect

def ofDocument (document : Json) : Dialect :=
  match document.field? "$schema" with
  | some (.string s) =>
    if s = Registry.draft07 ∨ s ++ "#" = Registry.draft07 then .draft07 else .draft2020
  | _ => .draft2020

end Dialect

def isString : Json → Bool
  | .string _ => true
  | _ => false

def isArray : Json → Bool
  | .array _ => true
  | _ => false

def typeNames? : Json → Option (List TypeName)
  | .string name => (TypeName.ofName? name).map ([·])
  | .array names => do
    let types ← names.mapM fun
      | .string name => TypeName.ofName? name
      | _ => none
    if types.isEmpty ∨ ¬types.Nodup then none else some types
  | _ => none

def requiredNames? : Json → Option (List String)
  | .array names => do
    let names ← names.mapM fun
      | .string name => some name
      | _ => none
    if names.Nodup then some names else none
  | _ => none

inductive KeywordName where
  | reference | type | properties | additional | required | items | anyOf | enumeration | constant
  | pattern | definitions | defs | text | examples | deprecated | other
deriving DecidableEq

namespace KeywordName

def all : List (String × KeywordName) :=
  [("$ref", .reference), ("type", .type), ("properties", .properties),
    ("additionalProperties", .additional), ("required", .required), ("items", .items),
    ("anyOf", .anyOf), ("enum", .enumeration), ("const", .constant), ("pattern", .pattern),
    ("definitions", .definitions), ("$defs", .defs), ("title", .text), ("description", .text),
    ("examples", .examples), ("deprecated", .deprecated)]

def ofKey (key : String) : KeywordName := (all.lookup key).getD .other

end KeywordName

def plainKeywordOk (d : Dialect) (name : KeywordName) (value : Json) : Bool :=
  match name with
  | .reference =>
    match value with
    | .string reference =>
      match d, reference.toList with
      | .draft07, '#' :: fragment => Pointer.isFragment fragment
      | _, _ => true
    | _ => false
  | .type => (typeNames? value).isSome
  | .required => (requiredNames? value).isSome
  | .enumeration | .examples => isArray value
  | .pattern =>
    match value with
    | .string text => d == .draft2020 || Pattern.isSpelledForSchema text
    | _ => false
  | .text => isString value
  | .deprecated =>
    match value with
    | .bool _ => true
    | _ => d == .draft07
  | _ => true

mutual
-- Whether a document, with all that it defines, used or not, has the form of a schema.
def isSchema (d : Dialect) : Json → Bool
  | .bool _ => true
  | .object fields => areKeywords d fields
  | _ => false

def areKeywords (d : Dialect) : List (String × Json) → Bool
  | [] => true
  | (key, value) :: rest =>
    (match KeywordName.ofKey key with
      | .items | .additional => isSchema d value
      | .anyOf => isSchemaList d value
      | .properties | .definitions => isSchemaObject d value
      | .defs => d == .draft07 || isSchemaObject d value
      | name => plainKeywordOk d name value) && areKeywords d rest

def isSchemaList (d : Dialect) : Json → Bool
  | .array (first :: rest) => isSchema d first && areSchemas d rest
  | _ => false

def isSchemaObject (d : Dialect) : Json → Bool
  | .object fields => areNamedSchemas d fields
  | _ => false

def areSchemas (d : Dialect) : List Json → Bool
  | [] => true
  | j :: rest => isSchema d j && areSchemas d rest

def areNamedSchemas (d : Dialect) : List (String × Json) → Bool
  | [] => true
  | (_, j) :: rest => isSchema d j && areNamedSchemas d rest
end

mutual
def referencesIn : Json → List String
  | .object fields => referencesInFields fields
  | .array items => referencesInItems items
  | _ => []

def referencesInFields : List (String × Json) → List String
  | [] => []
  | (key, value) :: rest =>
    (match KeywordName.ofKey key, value with
      | .reference, .string reference => [reference]
      | _, value => referencesIn value) ++ referencesInFields rest

def referencesInItems : List Json → List String
  | [] => []
  | j :: rest => referencesIn j ++ referencesInItems rest
end

-- In the older dialect nothing beside a reference counts.
def loneReference? : Dialect → List (String × Json) → Option String
  | .draft2020, _ => none
  | .draft07, fields =>
    match Table.get? fields "$ref" with
    | some (.string reference) => some reference
    | _ => none

-- Whether declared properties are checked for themselves, and not along with the others.
def leavesProperties (fields : List (String × Json)) : Bool :=
  match Table.get? fields "additionalProperties" with
  | some (.bool false) | some (.object _) => false
  | _ => true

mutual
-- The rule that a schema states; nothing if it cannot be used.
def rule? (d : Dialect) (schema : Json) : Option Rule :=
  match schema with
  | .bool true => some .anything
  | .bool false => some .nothing
  | .object fields =>
    match loneReference? d fields with
    | some reference => some (.keywords [.reference reference])
    | none => do
      let declared ← match Json.memberFields? "properties" fields with
        | some ⟨properties, _⟩ => (declared? d properties).map some
        | none => some none
      some (.keywords (← keywords? d declared fields fields))
  | _ => none
termination_by (sizeOf schema, 0)

-- The keywords of an object in its order. `declared` are its properties, if any.
def keywords? (d : Dialect) (declared : Option (List (String × Rule)))
    (all left : List (String × Json)) : Option (List Keyword) :=
  match left with
  | [] => some []
  | (key, value) :: rest => do
    let first ← keyword? d declared all (.ofKey key) value
    let others ← keywords? d declared all rest
    some (first.toList ++ others)
termination_by (sizeOf left, 0)

def keyword? (d : Dialect) (declared : Option (List (String × Rule)))
    (all : List (String × Json)) (name : KeywordName) (value : Json) : Option (Option Keyword) :=
  match name with
  | .reference =>
    match value with
    | .string reference => some (some (.reference reference))
    | _ => none
  | .type => (typeNames? value).map (some <| .type ·)
  | .properties =>
    bif leavesProperties all then declared.map fun properties => some (.properties properties)
    else some none
  | .additional =>
    match value with
    | .bool true => some none
    | .bool false => some (some (declared.elim .noProperties .closed))
    | value => do
      let others ← rule? d value
      some (some (.additional (declared.getD []) others))
  | .required => (requiredNames? value).map (some <| .required ·)
  | .items => do
    let rule ← rule? d value
    some (some (.items rule))
  | .anyOf =>
    match value with
    | .array schemas => do
      let rules ← rules? d schemas
      some (some (.anyOf rules))
    | _ => none
  | .enumeration =>
    match value with
    | .array values => some (some (.enumeration values))
    | _ => none
  | .constant => some (some (.constant value))
  | .pattern =>
    match value with
    | .string text => (Pattern.ofSchema? text).map (some <| .pattern text ·)
    | _ => none
  | .definitions | .defs | .text | .examples | .deprecated | .other => some none
termination_by (sizeOf value, 1)

def rules? (d : Dialect) (schemas : List Json) : Option (List Rule) :=
  match schemas with
  | [] => some []
  | j :: rest => do
    let rule ← rule? d j
    let rules ← rules? d rest
    some (rule :: rules)
termination_by (sizeOf schemas, 0)

def declared? (d : Dialect) (properties : List (String × Json)) : Option (List (String × Rule)) :=
  match properties with
  | [] => some []
  | (name, j) :: rest => do
    let rule ← rule? d j
    let rules ← declared? d rest
    some ((name, rule) :: rules)
termination_by (sizeOf properties, 0)
end

def targets? (d : Dialect) (document : Json) (known : List String) (done : List (String × Rule))
    (pending : List String) : Option (List (String × Rule)) :=
  match pending with
  | [] => some done
  | reference :: rest =>
    if _read : reference ∈ done.map (·.1) then targets? d document known done rest
    else if _written : reference ∈ known then
      match (Pointer.resolve? document reference).bind (rule? d) with
      | some rule =>
        targets? d document known ((reference, rule) :: done) (rule.references ++ rest)
      | none => none
    else none
termination_by (Registry.unvisitedIn known (done.map (·.1)), pending.length)
decreasing_by
  · exact .right _ (by simp)
  · exact .left _ _ (Registry.unvisitedIn_cons_lt _written _read)

-- Makes a document ready for use. The whole of it must have the form of a schema, and what its
-- root can reach must be there and be usable.
def RuleBook.ofDocument? (document : Json) : Option RuleBook :=
  let d := Dialect.ofDocument document
  bif isSchema d document then do
    let root ← rule? d document
    let targets ← targets? d document (referencesIn document) [] root.references
    some ⟨root, targets⟩
  else none

end TwinShape
