import TwinShape.Schema.Emission

namespace TwinShape

inductive Invalid where
  | fault (f : Fault)
  | unusable (why : String)
  | violated (first : SchemaError) (rest : List SchemaError)

def validateAgainst (engine : SchemaEngine) (document instance_ : Json) :
    Option (Except Invalid Unit) :=
  match engine document with
  | .error why => some (.error (.unusable why))
  | .ok check => (check instance_).all?.map fun
    | [] => .ok ()
    | first :: rest => .error (.violated first rest)

-- Checks an instance against the external shape of a definition. The document holds every
-- definition, so a raw schema may point at any of them.
def Registry.validate (r : Registry) (name : String) (instance_ : Json) (m : Memory) :
    Option (Except Invalid Unit) × Memory :=
  match r.schema { SchemaOptions.plain with root := some name } m with
  | (.error f, m) => (some (.error (.fault f)), m)
  | (.ok document, m) => (validateAgainst r.engines.schema document instance_, m)

end TwinShape
