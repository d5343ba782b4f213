import TwinShape.Node.Basic

namespace TwinShape

def sameOption {α : Type} (eq : α → α → Bool) : Option α → Option α → Bool
  | none, none => true
  | some a, some b => eq a b
  | _, _ => false

def sameList {α : Type} (eq : α → α → Bool) : List α → List α → Bool
  | [], [] => true
  | a :: as, b :: bs => eq a b && sameList eq as bs
  | _, _ => false

def Marked.same {α : Type} (a b : Marked α) : Bool := a.mark == b.mark

def Naming.same (a b : Naming) : Bool := a.mark == b.mark

def Annotations.same (a b : Annotations) : Bool :=
  a.title == b.title && a.description == b.description &&
    sameList Json.same a.examples b.examples && a.deprecated == b.deprecated &&
    a.comment == b.comment && a.pattern == b.pattern

def Annotations.isEmpty (a : Annotations) : Bool := a.same .blank

def Optionality.same : Optionality → Optionality → Bool
  | .required, .required => true
  | .optional a, .optional b => sameOption Json.same a b
  | _, _ => false

mutual
def Node.same : Node → Node → Bool
  | ⟨shape, annotations, optionality, restriction, _⟩, n =>
    sameShape shape n.shape && annotations.same n.annotations &&
      optionality.same n.optionality && restriction == n.restriction

def sameShape : Shape Node → Shape Node → Bool
  | .object ⟨properties, additional, parents⟩, .object o =>
    sameProperties properties o.properties && sameAdditional additional o.additional &&
      sameNodes parents o.parents
  | .array a, .array b => a.same b
  | .union as, .union bs => sameNodes as bs
  | .enumeration as f, .enumeration bs g => sameList Literal.same as bs && sameOption Naming.same f g
  | .constant a, .constant b => a.same b
  | .string, .string => true
  | .number, .number => true
  | .integer, .integer => true
  | .boolean, .boolean => true
  | .null, .null => true
  | .reference a, .reference b => a == b
  | .raw d s, .raw d' s' => sameOption Marked.same d d' && sameOption Marked.same s s'
  | .imported a m, .imported b m' => a == b && m == m'
  | .linked d s, .linked d' s' => d.same d' && s.same s'
  | _, _ => false

def sameAdditional : Additional Node → Additional Node → Bool
  | .forbidden, .forbidden => true
  | .allowed, .allowed => true
  | .shape a, .shape b => a.same b
  | _, _ => false

def sameProperties : List (Property Node) → List (Property Node) → Bool
  | [], [] => true
  | ⟨name, value, restriction⟩ :: ps, q :: qs =>
    name == q.name && value.same q.value && restriction == q.restriction && sameProperties ps qs
  | _, _ => false

def sameNodes : List Node → List Node → Bool
  | [], [] => true
  | a :: as, b :: bs => a.same b && sameNodes as bs
  | _, _ => false
end

def Property.same (p q : Property Node) : Bool := sameProperties [p] [q]

instance : BEq Node := ⟨Node.same⟩

end TwinShape
