import TwinShape.Json.Value

namespace TwinShape

-- What a search comes across, in order, and whether it ever comes to an end.
structure Evaluation (α : Type) where
  found : List α
  ends : Bool

namespace Evaluation
variable {α β : Type}

def clean : Evaluation α := ⟨[], true⟩

def here (a : α) : Evaluation α := ⟨[a], true⟩

def endless : Evaluation α := ⟨[], false⟩

def each (as : List α) : Evaluation α := ⟨as, true⟩

def map (f : α → β) (e : Evaluation α) : Evaluation β := ⟨e.found.map f, e.ends⟩

-- The second search begins where the first has ended.
def andThen (a b : Evaluation α) : Evaluation α :=
  bif a.ends then ⟨a.found ++ b.found, b.ends⟩ else a

-- Everything there is to find; nothing if the search does not end.
def all? (e : Evaluation α) : Option (List α) := bif e.ends then some e.found else none

-- What is found first, if the search finds anything; nothing if it neither finds something nor
-- ends.
def first? (e : Evaluation α) : Option (Option α) :=
  match e.found with
  | a :: _ => some (some a)
  | [] => bif e.ends then some none else none

end Evaluation

structure SchemaError where
  path : String
  message : String

abbrev PatternEngine := String → Except String (String → Bool)

abbrev SchemaEngine := Json → Except String (Json → Evaluation SchemaError)

-- The libraries by which patterns and schemas mean something.
structure Engines where
  pattern : PatternEngine
  schema : SchemaEngine

end TwinShape
