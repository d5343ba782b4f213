import TwinShape.Decimal.Layout
import TwinShape.Json.Value

namespace TwinShape

inductive Literal where
  | null
  | bool (b : Bool)
  | int (i : Signed64)
  | float (x : Binary64)
  | string (s : String)

namespace Literal

def nearest (i : Signed64) : Binary64 :=
  .ofNat (i.value < 0) i.value.natAbs (by
    have := i.low_le
    have := i.lt_high
    omega)

-- Documents that are scalars are literals. A whole number that 63 bits and a sign do not hold
-- becomes the nearest double.
def ofJson? : Json → Option Literal
  | .null => some .null
  | .bool b => some (.bool b)
  | .number (.whole i) =>
    if h : i.value < 9223372036854775808 then some (.int ⟨i.value, i.low_le, h⟩)
    else some (.float (Number.whole i).nearest)
  | .number (.float x) => some (.float x)
  | .string s => some (.string s)
  | .array _ | .object _ => none

def toJson : Literal → Json
  | .null => .null
  | .bool b => .bool b
  | .int i => .number (.whole ⟨i.value, i.low_le, Int.lt_trans i.lt_high (by decide)⟩)
  | .float x => .number (.float x)
  | .string s => .string s

-- Whether a document denotes this literal. Numbers are compared as doubles.
def holds : Literal → Json → Bool
  | .null, .null => true
  | .bool a, .bool b => a == b
  | .string a, .string b => a == b
  | .int i, .number n => (nearest i).units == n.nearest.units
  | .float x, .number n => x.units == n.nearest.units
  | _, _ => false

def same : Literal → Literal → Bool
  | .null, .null => true
  | .bool a, .bool b => a == b
  | .int i, .int j => i.value == j.value
  | .float x, .float y => x.units == y.units
  | .string a, .string b => a == b
  | _, _ => false

instance : BEq Literal := ⟨same⟩

def isEnumMember : Literal → Bool
  | .int _ | .float _ | .string _ => true
  | .null | .bool _ => false

def typeName : Literal → String
  | .null => "null"
  | .bool _ => "boolean"
  | .int _ | .float _ => "number"
  | .string _ => "string"

def display : Literal → String
  | .null => "null"
  | .bool b => if b then "true" else "false"
  | .int i => toString i.value
  | .float x => FloatText.plain.write x
  | .string s => s

-- Letters and digits are kept; whatever else stands between two runs of them makes
-- the next letter upper case.
def pascalChars : Bool → List Char → List Char
  | _, [] => []
  | upper, c :: rest =>
    if c.isAlphanum then (if upper then c.toUpper else c) :: pascalChars false rest
    else pascalChars true rest

-- The symbol of a member: `on-change` is `OnChange`, `3` is `N3`.
def pascalCase (l : Literal) : String :=
  match pascalChars true l.display.toList with
  | [] => "Empty"
  | c :: rest => String.ofList (if c.isDigit then 'N' :: c :: rest else c :: rest)

end Literal
end TwinShape
