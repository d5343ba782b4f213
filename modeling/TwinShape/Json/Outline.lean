import TwinShape.Json.Value

namespace TwinShape

inductive Outline where
  | null
  | bool (b : Bool)
  | number (n : Option Number)
  | string (s : Option String)
  | array (items : List Outline)
  | object (fields : List (Option String × Outline))
  -- Here the grammar is left, in place of the next value or, with no key, of the next
  -- field; nothing comes after it.
  | broken

namespace Outline

mutual
def json? (limit : Nat) : Outline → Option Json
  | .null => some .null
  | .bool b => some (.bool b)
  | .number n => n.map .number
  | .string s => s.map .string
  | .array items => if limit = 0 then none else (jsonItems? (limit - 1) items).map .array
  | .object fields => if limit = 0 then none else (jsonFields? (limit - 1) fields).map .object
  | .broken => none

def jsonItems? (limit : Nat) : List Outline → Option (List Json)
  | [] => some []
  | o :: rest => do some ((← o.json? limit) :: (← jsonItems? limit rest))

def jsonFields? (limit : Nat) : List (Option String × Outline) → Option (List (String × Json))
  | [] => some []
  | (key, o) :: rest => do some ((← key, ← o.json? limit) :: (← jsonFields? limit rest))
end

mutual
def isWhole : Outline → Bool
  | .array items => areWhole items
  | .object fields => fieldsAreWhole fields
  | .broken => false
  | .null | .bool _ | .number _ | .string _ => true

def areWhole : List Outline → Bool
  | [] => true
  | o :: rest => o.isWhole && areWhole rest

def fieldsAreWhole : List (Option String × Outline) → Bool
  | [] => true
  | (_, o) :: rest => o.isWhole && fieldsAreWhole rest
end

end Outline
end TwinShape
