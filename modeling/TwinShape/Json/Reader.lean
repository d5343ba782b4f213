import TwinShape.Json.Token

namespace TwinShape.Json

inductive Frame where
  | array (items : List Outline)
  | object (fields : List (Option String × Outline))
  -- An object whose last key has no value yet.
  | field (fields : List (Option String × Outline)) (key : Option String)

-- What may come next in the innermost open container.
inductive Expect where
  | value | firstItem | firstKey | key | colon | separator

inductive Reading where
  | inside (frames : List Frame) (expect : Expect)
  | done (o : Outline)

def deliver (o : Outline) : List Frame → Reading
  | [] => .done o
  | .array items :: rest => .inside (.array (o :: items) :: rest) .separator
  | .object fields :: rest => .inside (.object ((none, o) :: fields) :: rest) .separator
  | .field fields key :: rest => .inside (.object ((key, o) :: fields) :: rest) .separator

def breakOff (o : Outline) : List Frame → Outline
  | [] => o
  | .array items :: rest => breakOff (.array (o :: items).reverse) rest
  | .object fields :: rest => breakOff (.object ((none, o) :: fields).reverse) rest
  | .field fields key :: rest => breakOff (.object ((key, o) :: fields).reverse) rest

def beginValue (frames : List Frame) : Token → Option Reading
  | .scalar o => some (deliver o frames)
  | .string s => some (deliver (.string s) frames)
  | .openArray => some (.inside (.array [] :: frames) .firstItem)
  | .openObject => some (.inside (.object [] :: frames) .firstKey)
  | _ => none

def closeArray : List Frame → Option Reading
  | .array items :: rest => some (deliver (.array items.reverse) rest)
  | _ => none

def closeObject : List Frame → Option Reading
  | .object fields :: rest => some (deliver (.object fields.reverse) rest)
  | _ => none

def beginField (key : Option String) : List Frame → Option Reading
  | .object fields :: rest => some (.inside (.field fields key :: rest) .colon)
  | _ => none

def advance (frames : List Frame) (expect : Expect) (t : Token) : Option Reading :=
  match expect, t with
  | .firstItem, .closeArray | .separator, .closeArray => closeArray frames
  | .firstKey, .closeObject | .separator, .closeObject => closeObject frames
  | .value, t | .firstItem, t => beginValue frames t
  | .firstKey, .string s | .key, .string s => beginField s frames
  | .colon, .colon => some (.inside frames .value)
  | .separator, .comma =>
    match frames with
    | .array _ :: _ => some (.inside frames .value)
    | _ => some (.inside frames .key)
  | _, _ => none

-- Also tells whether anything follows the value.
def assemble (r : Reading) : List Token → Outline × Bool
  | [] =>
    match r with
    | .done o => (o, false)
    | .inside frames _ => (breakOff .broken frames, false)
  | t :: rest =>
    match r with
    | .done o => (o, true)
    | .inside frames expect =>
      match advance frames expect t with
      | some r => assemble r rest
      | none => (breakOff .broken frames, false)

def outline (text : String) : Outline × Bool := assemble (.inside [] .value) (lex text.toList)

-- Reads one document. Containers nest at most `limit` deep; repeated keys are kept.
def parse? (limit : Nat) (text : String) : Option Json :=
  match outline text with
  | (o, false) => o.json? limit
  | (_, true) => none

def depthLimit : Nat := 127

end TwinShape.Json
