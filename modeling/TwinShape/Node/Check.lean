import TwinShape.Engines
import TwinShape.Json.Printer
import TwinShape.Node.Basic
import TwinShape.Node.Place

namespace TwinShape

inductive Flaw where
  | misuse (m : Misuse)
  | invalidPattern (why : String)
  | patternMismatch (text pattern : String)
  | invalidDefault (value : Json) (kind : String)
  | duplicateProperty (name : String)
  | parent (kind : String)
  | member (typeName : String)

def Flaw.message : Flaw → String
  | .misuse m => m.message
  | .invalidPattern why => "invalid pattern: " ++ why
  | .patternMismatch text pattern => "default \"" ++ text ++ "\" does not match pattern " ++ pattern
  | .invalidDefault value kind =>
    "default " ++ value.compact ++ " (" ++ value.typeName ++ ") is not a valid " ++ kind
  | .duplicateProperty name => "duplicate property '" ++ name ++ "'"
  | .parent kind => "can only extend objects or references, not " ++ kind
  | .member typeName => "enum members must be strings or numbers, got " ++ typeName

structure Finding where
  place : Place
  flaw : Flaw

def Annotations.patternFlaw? (engine : PatternEngine) (a : Annotations) : Option Flaw :=
  match a.pattern with
  | some pattern =>
    match engine pattern with
    | .ok _ => none
    | .error why => some (.invalidPattern why)
  | none => none

-- A pattern that is none demands nothing here; it is a flaw of its own.
def Annotations.mismatch? (engine : PatternEngine) (a : Annotations) (text : String) : Option Flaw :=
  match a.pattern with
  | some pattern =>
    match engine pattern with
    | .ok finds => bif finds text then none else some (.patternMismatch text pattern)
    | .error _ => none
  | none => none

section
variable (engine : PatternEngine)

mutual
def Node.defaultFlaw? (value : Json) : Node → Option Flaw
  | ⟨shape, annotations, _, _, _⟩ =>
    match shape, value with
    | .string, .string text => annotations.mismatch? engine text
    | shape, value =>
      bif takesDefault value shape then none else some (.invalidDefault value shape.kindName)

def takesDefault (value : Json) : Shape Node → Bool
  | .string => match value with | .string _ => true | _ => false
  | .number => match value with | .number _ => true | _ => false
  | .integer => value.isInteger
  | .boolean => match value with | .bool _ => true | _ => false
  | .null => match value with | .null => true | _ => false
  | .constant l => l.holds value
  | .enumeration values _ => values.any (·.holds value)
  | .object _ => match value with | .object _ => true | _ => false
  | .array _ => match value with | .array _ => true | _ => false
  | .union members => anyTakesDefault value members
  | .reference _ | .raw .. | .imported .. | .linked .. => true

def anyTakesDefault (value : Json) : List Node → Bool
  | [] => false
  | n :: rest => (n.defaultFlaw? value).isNone || anyTakesDefault value rest
end

-- What can be wrong with a node whatever its children are: misuse, then the pattern,
-- then the default.
def Node.ownFlaw? (place : Place) (n : Node) : Option Finding :=
  match n.misuse with
  | m :: _ => some ⟨place, .misuse m⟩
  | [] =>
    match n.annotations.patternFlaw? engine with
    | some flaw => some ⟨place.child "pattern", flaw⟩
    | none =>
      match n.default? with
      | some value => (n.defaultFlaw? engine value).map fun flaw => ⟨place.child "default", flaw⟩
      | none => none

def canBeParent : Shape Node → Bool
  | .object _ | .reference _ => true
  | _ => false

mutual
-- The first flaw of a tree. A node comes before its children, children in the order in which
-- they are written, and a repeated property name where it is repeated.
def Node.firstFlaw? (place : Place) : Node → Option Finding
  | ⟨shape, annotations, optionality, restriction, misuse⟩ =>
    match Node.ownFlaw? engine place ⟨shape, annotations, optionality, restriction, misuse⟩ with
    | some finding => some finding
    | none => shapeFlaw? place shape

def shapeFlaw? (place : Place) : Shape Node → Option Finding
  | .object ⟨properties, additional, parents⟩ =>
    (propertiesFlaw? place [] properties).or
      ((additionalFlaw? place additional).or (parentsFlaw? place 0 parents))
  | .array item => item.firstFlaw? (place.child "items")
  | .union members => membersFlaw? place 0 members
  | .enumeration values _ =>
    (values.find? (!·.isEnumMember)).map fun l => ⟨place.child "enum", .member l.typeName⟩
  | .linked declaration schema =>
    (declaration.firstFlaw? (place.child "declaration")).or
      (schema.firstFlaw? (place.child "schema"))
  | .constant _ | .string | .number | .integer | .boolean | .null | .reference _ | .raw ..
  | .imported .. => none

def propertiesFlaw? (place : Place) (seen : List String) : List (Property Node) → Option Finding
  | [] => none
  | ⟨name, value, _⟩ :: rest =>
    if name ∈ seen then some ⟨place.child "properties", .duplicateProperty name⟩
    else
      (value.firstFlaw? (place.property name)).or (propertiesFlaw? place (name :: seen) rest)

def additionalFlaw? (place : Place) : Additional Node → Option Finding
  | .forbidden | .allowed => none
  | .shape n => n.firstFlaw? (place.child "additionalProperties")

def parentsFlaw? (place : Place) (i : Nat) : List Node → Option Finding
  | [] => none
  | n :: rest =>
    (bif canBeParent n.shape then n.firstFlaw? (place.item "extends" i)
      else some ⟨place.item "extends" i, .parent n.kindName⟩).or
      (parentsFlaw? place (i + 1) rest)

def membersFlaw? (place : Place) (i : Nat) : List Node → Option Finding
  | [] => none
  | n :: rest => (n.firstFlaw? (place.item "anyOf" i)).or (membersFlaw? place (i + 1) rest)
end

end

end TwinShape
