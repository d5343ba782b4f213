import TwinShape.Json.Value
import TwinShape.Pattern.Expression

namespace TwinShape

inductive TypeName where
  | array | boolean | integer | null | number | object | string
deriving DecidableEq

namespace TypeName

def all : List TypeName := [.array, .boolean, .integer, .null, .number, .object, .string]

def name : TypeName → String
  | .array => "array"
  | .boolean => "boolean"
  | .integer => "integer"
  | .null => "null"
  | .number => "number"
  | .object => "object"
  | .string => "string"

def ofName? (name : String) : Option TypeName := all.find? (·.name == name)

def admits : TypeName → Json → Bool
  | .array, .array _ => true
  | .boolean, .bool _ => true
  | .integer, j => j.isInteger
  | .null, .null => true
  | .number, .number _ => true
  | .object, .object _ => true
  | .string, .string _ => true
  | _, _ => false

end TypeName

mutual
-- What a schema demands of an instance.
inductive Rule where
  | anything
  | nothing
  -- Checked one after another.
  | keywords (list : List Keyword)

inductive Keyword where
  -- The schema that a reference points at.
  | reference (target : String)
  | type (names : List TypeName)
  -- Looks at the declared properties in the order of the schema.
  | properties (declared : List (String × Rule))
  -- Look at the properties of the instance in its own order. Those that are not
  -- declared obey the other rule, or must not be there.
  | additional (declared : List (String × Rule)) (others : Rule)
  | closed (declared : List (String × Rule))
  -- No property at all.
  | noProperties
  | required (names : List String)
  | items (rule : Rule)
  | anyOf (rules : List Rule)
  | enumeration (values : List Json)
  | constant (value : Json)
  | pattern (text : String) (expression : Pattern)
end

mutual
def Rule.references : Rule → List String
  | .anything | .nothing => []
  | .keywords list => keywordsReferences list

def Keyword.references : Keyword → List String
  | .reference target => [target]
  | .properties declared | .closed declared => declaredReferences declared
  | .additional declared others => declaredReferences declared ++ others.references
  | .items rule => rule.references
  | .anyOf rules => rulesReferences rules
  | .type _ | .noProperties | .required _ | .enumeration _ | .constant _ | .pattern .. => []

def keywordsReferences : List Keyword → List String
  | [] => []
  | k :: rest => k.references ++ keywordsReferences rest

def declaredReferences : List (String × Rule) → List String
  | [] => []
  | (_, rule) :: rest => rule.references ++ declaredReferences rest

def rulesReferences : List Rule → List String
  | [] => []
  | rule :: rest => rule.references ++ rulesReferences rest
end

-- A schema that is ready for use: every reference that can be met has its rule.
structure RuleBook where
  root : Rule
  targets : List (String × Rule)

end TwinShape
