import TwinShape.Decimal.Binary64
import TwinShape.Table

namespace TwinShape

structure Whole (low high : Int) where
  value : Int
  low_le : low ≤ value
  lt_high : value < high
deriving DecidableEq

-- What 64 bits can hold, with a sign or without one, and with a sign only.
abbrev Whole64 := Whole (-9223372036854775808) 18446744073709551616
abbrev Signed64 := Whole (-9223372036854775808) 9223372036854775808

inductive Number where
  | whole (i : Whole64)
  | float (x : Binary64)

namespace Number

-- The exact value, in the units of finite doubles.
def units : Number → Int
  | .whole i => i.value * Binary64.unitsPerOne
  | .float x => x.units

theorem natAbs_lt (i : Whole64) : i.value.natAbs < 18446744073709551616 := by
  have := i.low_le
  have := i.lt_high
  omega

def nearest : Number → Binary64
  | .whole i => .ofNat (i.value < 0) i.value.natAbs (natAbs_lt i)
  | .float x => x

-- As document values a whole number and a float are never equal.
def same : Number → Number → Bool
  | .whole i, .whole j => i.value == j.value
  | .float x, .float y => x.units == y.units
  | _, _ => false

def sameValue (a b : Number) : Bool := a.units == b.units

end Number

-- A JSON document. Fields keep their order; a document read from text may repeat a key until
-- it is settled.
inductive Json where
  | null
  | bool (b : Bool)
  | number (n : Number)
  | string (s : String)
  | array (items : List Json)
  | object (fields : List (String × Json))

namespace Json

def typeName : Json → String
  | .null => "null"
  | .bool _ => "boolean"
  | .number _ => "number"
  | .string _ => "string"
  | .array _ => "array"
  | .object _ => "object"

def field? (key : String) : Json → Option Json
  | .object fields => Table.get? fields key
  | _ => none

mutual
-- Equality of documents, which tells `1` from `1.0`. The order of fields does not matter.
def same : Json → Json → Bool
  | .null, .null => true
  | .bool a, .bool b => a == b
  | .number a, .number b => a.same b
  | .string a, .string b => a == b
  | .array xs, .array ys => sameItems xs ys
  | .object xs, .object ys => xs.length == ys.length && sameFields xs ys
  | _, _ => false

def sameItems : List Json → List Json → Bool
  | [], [] => true
  | x :: xs, y :: ys => same x y && sameItems xs ys
  | _, _ => false

def sameFields : List (String × Json) → List (String × Json) → Bool
  | [], _ => true
  | (key, x) :: xs, ys =>
    (match Table.get? ys key with
      | some y => same x y
      | none => false) && sameFields xs ys
end

mutual
-- Equality of what documents spell: numbers count by their value, and fields have to come in
-- the same order.
def sameValue : Json → Json → Bool
  | .null, .null => true
  | .bool a, .bool b => a == b
  | .number a, .number b => a.sameValue b
  | .string a, .string b => a == b
  | .array xs, .array ys => sameValues xs ys
  | .object xs, .object ys => sameEntries xs ys
  | _, _ => false

def sameValues : List Json → List Json → Bool
  | [], [] => true
  | x :: xs, y :: ys => sameValue x y && sameValues xs ys
  | _, _ => false

def sameEntries : List (String × Json) → List (String × Json) → Bool
  | [], [] => true
  | (k, x) :: xs, (l, y) :: ys => k == l && sameValue x y && sameEntries xs ys
  | _, _ => false
end

instance : BEq Json := ⟨same⟩

mutual
-- A repeated key keeps the place of its first field and the value of its last.
def settle : Json → Json
  | .array items => .array (settleItems items)
  | .object fields => .object (Table.ofEntries (settleFields fields))
  | .null => .null
  | .bool b => .bool b
  | .number n => .number n
  | .string s => .string s

def settleItems : List Json → List Json
  | [] => []
  | j :: rest => j.settle :: settleItems rest

def settleFields : List (String × Json) → List (String × Json)
  | [] => []
  | (key, j) :: rest => (key, j.settle) :: settleFields rest
end

-- A count of things; more than 64 bits hold cannot be written.
def count (n : Nat) : Json :=
  if h : n < 18446744073709551616 then .number (.whole ⟨n, by omega, by omega⟩) else .null

-- Floats without a fraction count.
def isInteger : Json → Bool
  | .number (.whole _) => true
  | .number (.float x) => x.isWhole
  | _ => false

-- The value of a key, which is smaller than the fields that hold it.
def member? (key : String) : (fields : List (String × Json)) →
    Option { j : Json // sizeOf j < sizeOf fields }
  | [] => none
  | (k, j) :: rest =>
    if k = key then some ⟨j, by simp; omega⟩
    else (member? key rest).map fun ⟨j, smaller⟩ => ⟨j, by simp; omega⟩

def memberFields? (key : String) (fields : List (String × Json)) :
    Option { inner : List (String × Json) // sizeOf inner < sizeOf fields } :=
  match member? key fields with
  | some ⟨.object inner, smaller⟩ => some ⟨inner, by simp at smaller; omega⟩
  | _ => none

theorem member?_eq (key : String) (fields : List (String × Json)) :
    (member? key fields).map (·.val) = Table.get? fields key := by
  induction fields with
  | nil => rfl
  | cons entry rest ih =>
    obtain ⟨k, j⟩ := entry
    by_cases h : k = key
    · simp [member?, Table.get?_cons, h]
    · simp [member?, Table.get?_cons, h, Ne.symm h, ← ih, Function.comp_def]

def strings (names : List String) : Json := .array (names.map .string)

end Json
end TwinShape
