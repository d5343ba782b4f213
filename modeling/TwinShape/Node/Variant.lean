namespace TwinShape

inductive Variant where
  | external | internal
deriving DecidableEq

namespace Variant

def name : Variant → String
  | .external => "external"
  | .internal => "internal"

def all : List Variant := [.external, .internal]

def other : Variant → Variant
  | .external => .internal
  | .internal => .external

end Variant

inductive Restriction where
  | unrestricted
  | only (variant : Variant)
deriving DecidableEq

namespace Restriction

def includes : Restriction → Variant → Bool
  | .unrestricted, _ => true
  | .only kept, variant => kept == variant

def isRestricted : Restriction → Bool
  | .unrestricted => false
  | .only _ => true

@[simp] theorem includes_unrestricted (v : Variant) : includes .unrestricted v = true := rfl

@[simp] theorem includes_only (kept v : Variant) :
    includes (.only kept) v = true ↔ kept = v := by simp [includes]

end Restriction

inductive Backend where
  | declarations | schema
deriving DecidableEq

def Backend.name : Backend → String
  | .declarations => "declarations"
  | .schema => "schema"

end TwinShape
