import TwinShape.Json.Reader
import TwinShape.Node.Builder
import TwinShape.Registry.Basic

namespace TwinShape

-- The order is the one in which the kinds are numbered; a document may give a kind by its name
-- or by its number.
inductive Kind where
  | object | array | union | enumeration | constant | string | number | integer | boolean | null
  | reference | raw | imported | linked

namespace Kind

def all : List (String × Kind) :=
  [("object", .object), ("array", .array), ("union", .union), ("enum", .enumeration),
    ("const", .constant), ("string", .string), ("number", .number), ("integer", .integer),
    ("boolean", .boolean), ("null", .null), ("ref", .reference), ("raw", .raw),
    ("import", .imported), ("linked", .linked)]

def ofJson? : Json → Option Kind
  | .string name => all.lookup name
  | .number (.whole i) => if i.value < 0 then none else (all[i.value.toNat]?).map (·.2)
  | _ => none

end Kind

namespace Manifest

abbrev Fields := List (String × Json)

-- What a record holds is smaller than the record.
abbrev Inner (fields : Fields) := { j : Json // sizeOf j < sizeOf fields }

-- The field of a key that a record knows, if it is there. Writing such a key twice makes the
-- record unreadable; keys that it does not know may be repeated.
def field? (key : String) : (fields : Fields) → Option (Option (Inner fields))
  | [] => some none
  | (k, j) :: rest =>
    if k = key then
      if key ∈ rest.map (·.1) then none else some (some ⟨j, by simp; omega⟩)
    else
      (field? key rest).map fun found => found.map fun ⟨j, smaller⟩ => ⟨j, by simp; omega⟩

def required? (key : String) (fields : Fields) : Option (Inner fields) := (field? key fields).join

def list? (key : String) (fields : Fields) :
    Option (Option { items : List Json // sizeOf items < sizeOf fields }) := do
  match ← field? key fields with
  | none => some none
  | some ⟨.array items, smaller⟩ => some (some ⟨items, by simp at smaller; omega⟩)
  | some _ => none

-- A field that has a value of its own when it is left out.
def orElse? {α : Type} (key : String) (absent : α) (read : Json → Option α) (fields : Fields) :
    Option α := do
  match ← field? key fields with
  | some j => read j
  | none => some absent

def optional? {α : Type} (key : String) (read : Json → Option α) (fields : Fields) :
    Option (Option α) :=
  orElse? key none (fun
    | .null => some none
    | j => (read j).map some) fields

def text? : Json → Option String
  | .string s => some s
  | _ => none

def flag? : Json → Option Bool
  | .bool b => some b
  | _ => none

def items? : Json → Option (List Json)
  | .array items => some items
  | _ => none

def document? (j : Json) : Option Json := some j.settle

def variantName? : String → Option Variant
  | "internal" => some .internal
  | "external" => some .external
  | _ => none

-- By its name, or as a record with that one key and null in it. Inside of a node, an empty
-- record counts as null there.
def variant? (inside : Bool) : Json → Option Variant
  | .string name => variantName? name
  | .object [(name, .null)] => variantName? name
  | .object [(name, .object [])] => bif inside then variantName? name else none
  | _ => none

structure Details where
  title : Option String
  description : Option String
  examples : List Json
  deprecated : Option String
  comment : Option String
  pattern : Option String
  optional : Bool
  default : Option Json
  onlyIn : Option Variant

def details? (inside : Bool) (fields : Fields) : Option Details := do
  some {
    title := ← optional? "title" text? fields
    description := ← optional? "description" text? fields
    examples := (← orElse? "examples" [] items? fields).map Json.settle
    deprecated := ← optional? "deprecated" text? fields
    comment := ← optional? "comment" text? fields
    pattern := ← optional? "pattern" text? fields
    optional := ← orElse? "optional" false flag? fields
    default := ← optional? "default" document? fields
    onlyIn := ← optional? "onlyIn" (variant? inside) fields }

def given {α β : Type} (change : β → α → β) (argument : Option α) (b : β) : β :=
  argument.elim b (change b)

-- A default makes a node optional whatever the record says about that.
def Details.apply (d : Details) (n : Node) : Node :=
  let n := given Node.description d.description (given Node.title d.title n)
  let n := given Node.deprecated d.deprecated (d.examples.foldl Node.addExample n)
  let n := given Node.pattern d.pattern (given Node.comment d.comment n)
  let n := match d.default with
    | some value => n.optionalWith value
    | none => bif d.optional then n.optional else n
  given Node.onlyIn d.onlyIn n

def literals? : Json → Option (List Literal)
  | .array items => items.mapM Literal.ofJson?
  | _ => none

mutual
-- The node that a record describes, on its own or inside of another one. Fields of other kinds
-- than its own are not looked at. Every function in it is marked with its place in the tree.
def nodeAt? (inside : Bool) (mark : Mark) (j : Json) : Option Node :=
  match j with
  | .object fields => do
    let ⟨kind, _⟩ ← required? "kind" fields
    let details ← details? inside fields
    let n ← ofKind? mark fields (← Kind.ofJson? kind)
    some (details.apply n)
  | _ => none
termination_by (sizeOf j, 0)

def ofKind? (mark : Mark) (fields : Fields) (kind : Kind) : Option Node :=
  match kind with
  | .object => do
    let properties ← match ← list? "properties" fields with
      | some ⟨items, _⟩ => properties? (mark.child 0) 0 items
      | none => some []
    let parents ← match ← list? "extends" fields with
      | some ⟨items, _⟩ => nodes? (mark.child 1) 0 items
      | none => some []
    let n := parents.foldl Node.extending (.ofProperties properties)
    match ← field? "additionalProperties" fields with
    | none | some ⟨.null, _⟩ | some ⟨.bool false, _⟩ => some n
    | some ⟨.bool true, _⟩ => some n.allowAdditional
    | some ⟨shape, _⟩ => do some (n.additional (← nodeAt? false (mark.child 2) shape))
  | .array => do
    let ⟨items, _⟩ ← required? "items" fields
    some (.arrayOf (← nodeAt? true (mark.child 0) items))
  | .union => do
    let ⟨members, _⟩ ← (list? "members" fields).join
    some (.unionOf (← nodes? mark 0 members))
  | .enumeration => do
    let ⟨values, _⟩ ← required? "values" fields
    let n := Node.enumOf (← literals? values)
    if ← orElse? "realEnum" false flag? fields then some (n.named ⟨mark, Literal.pascalCase⟩)
    else some n
  | .constant => do
    let ⟨value, _⟩ ← required? "value" fields
    some (.constantOf (← Literal.ofJson? value))
  | .string => some .string
  | .number => some .number
  | .integer => some .integer
  | .boolean => some .boolean
  | .null => some .null
  | .reference => do
    let ⟨name, _⟩ ← required? "name" fields
    some (.referenceTo (← text? name))
  | .raw => do
    let declaration ← optional? "declaration" text? fields
    let schema ← optional? "schema" document? fields
    let n := given (fun n text => n.emittingDeclaration ⟨mark, text⟩) declaration Node.raw
    some (given (fun n document => n.emittingSchema ⟨mark, document⟩) schema n)
  | .imported => do
    let ⟨name, _⟩ ← required? "import" fields
    let ⟨module, _⟩ ← required? "from" fields
    some (.importOf (← text? name) (← text? module))
  | .linked => do
    let ⟨declaration, _⟩ ← required? "declaration" fields
    let ⟨schema, _⟩ ← required? "schema" fields
    some (.link (← nodeAt? true (mark.child 0) declaration) (← nodeAt? true (mark.child 1) schema))
termination_by (sizeOf fields, 1)

def nodes? (mark : Mark) (i : Nat) (documents : List Json) : Option (List Node) :=
  match documents with
  | [] => some []
  | j :: rest => do some ((← nodeAt? true (mark.child i) j) :: (← nodes? mark (i + 1) rest))
termination_by (sizeOf documents, 0)

def property? (mark : Mark) (j : Json) : Option (Property Node) :=
  match j with
  | .object fields => do
    let ⟨name, _⟩ ← required? "name" fields
    let ⟨value, _⟩ ← required? "value" fields
    let onlyIn ← optional? "onlyIn" (variant? true) fields
    some (given Property.onlyIn onlyIn (.of (← text? name) (← nodeAt? true mark value)))
  | .array [name, value, onlyIn] => do
    let p := Property.of (← text? name) (← nodeAt? true mark value)
    match onlyIn with
    | .null => some p
    | onlyIn => do some (p.onlyIn (← variant? true onlyIn))
  | _ => none
termination_by (sizeOf j, 0)

def properties? (mark : Mark) (i : Nat) (documents : List Json) : Option (List (Property Node)) :=
  match documents with
  | [] => some []
  | j :: rest => do some ((← property? (mark.child i) j) :: (← properties? mark (i + 1) rest))
termination_by (sizeOf documents, 0)
end

def node? (mark : Mark) (j : Json) : Option Node := nodeAt? false mark j

-- Why a text is no manifest: it is no JSON document, or the document does not fit. The text is
-- read once from its beginning, and the first fault decides.
inductive Unreadable where
  | spelling | content

def misfit : Outline → Unreadable
  | .broken | .number none | .string none => .spelling
  | _ => .content

abbrev Entries := List (Option String × Outline)

def textKeys : List String := ["title", "description", "deprecated", "comment", "pattern"]

-- The keys that every node knows, whatever its kind.
def detailKeys : List String := textKeys ++ ["examples", "optional", "default", "onlyIn"]

-- Containers in a field of a node, which are below the manifest, its definitions and the node.
def fieldDepth : Nat := Json.depthLimit - 3

def documentFault? (o : Outline) : Option Unreadable :=
  if (o.json? fieldDepth).isSome then none else some .spelling

-- A record may be read only as far as it names a variant: what is no name and no such record
-- is not even a document here, and neither is one that goes on behind its field.
def variantFault? : Outline → Option Unreadable
  | .null => none
  | .string (some name) => if (variantName? name).isSome then none else some .content
  | .object ((some name, value) :: rest) =>
    match variantName? name, value with
    | none, _ => some .content
    | some _, .null => if rest.isEmpty then none else some .spelling
    | some _, value => some (misfit value)
  | _ => some .spelling

def hasForm (key : String) (o : Outline) : Bool :=
  if key ∈ textKeys then
    match o with
    | .null | .string _ => true
    | _ => false
  else if key = "optional" then
    match o with
    | .bool _ => true
    | _ => false
  else if key = "examples" then
    match o with
    | .array _ => true
    | _ => false
  else true

def fieldFault? (key : String) (o : Outline) : Option Unreadable :=
  if key = "onlyIn" then variantFault? o
  else if hasForm key o then documentFault? o
  else some (misfit o)

-- A key that every node knows may not be repeated.
def fieldsFault? (before : List String) : Entries → Option Unreadable
  | [] => none
  | (none, _) :: _ => some .spelling
  | (some key, o) :: rest =>
    if key ∈ before ∧ key ∈ detailKeys then some .content
    else (fieldFault? key o).or (fieldsFault? (key :: before) rest)

def definedNode (mark : Mark) : Outline → Except Unreadable Node
  | .object fields =>
    match fieldsFault? [] fields with
    | some fault => .error fault
    | none =>
      match ((Outline.object fields).json? (fieldDepth + 1)).bind (node? mark) with
      | some n => .ok n
      | none => .error .content
  | o => .error (misfit o)

-- A name that is written twice keeps its first place and takes its last node.
def define (r : Registry) : Entries → Except Unreadable Registry
  | [] => .ok r
  | (none, _) :: _ => .error .spelling
  | (some name, o) :: rest => do define (r.put ⟨name, ← definedNode ⟨name, []⟩ o⟩) rest

def registry (engines : Engines) : Outline → Except Unreadable Registry
  | .object definitions => define (.empty engines) definitions
  | o => .error (misfit o)

-- Any other field than the definitions is only passed over.
def readFields (engines : Engines) (found : Option Registry) : Entries → Except Unreadable Registry
  | [] => found.elim (.error .content) .ok
  | (none, _) :: _ => .error .spelling
  | (some key, o) :: rest =>
    if key = "definitions" then
      if found.isSome then .error .content
      else do readFields engines (some (← registry engines o)) rest
    else if o.isWhole then readFields engines found rest
    else .error .spelling

-- Reads the definitions of a manifest. A manifest may be a list of its only part; anything
-- that follows in such a list is a fault of spelling.
def read (engines : Engines) (text : String) : Except Unreadable Registry := do
  let (o, more) := Json.outline text
  let r ← match o with
    | .object fields => readFields engines none fields
    | .array [] => .error .content
    | .array (first :: rest) => do
      let r ← registry engines first
      if rest.isEmpty then .ok r else .error .spelling
    | o => .error (misfit o)
  if more then .error .spelling else .ok r

end Manifest
end TwinShape
