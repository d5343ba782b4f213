import TwinShape.Node.Equality

namespace TwinShape

def Property.of (name : String) (value : Node) : Property Node := ⟨name, value, .unrestricted⟩

def Property.onlyIn (p : Property Node) (variant : Variant) : Property Node :=
  { p with restriction := .only variant }

namespace Node

def ofProperties (properties : List (Property Node)) : Node :=
  ofShape (.object ⟨properties, .forbidden, []⟩)

def arrayOf (item : Node) : Node := ofShape (.array item)
def unionOf (members : List Node) : Node := ofShape (.union members)
def enumOf (values : List Literal) : Node := ofShape (.enumeration values none)
def constantOf (value : Literal) : Node := ofShape (.constant value)
def string : Node := ofShape .string
def number : Node := ofShape .number
def integer : Node := ofShape .integer
def boolean : Node := ofShape .boolean
def null : Node := ofShape .null
def referenceTo (name : String) : Node := ofShape (.reference name)
def raw : Node := ofShape (.raw none none)
def importOf (name module : String) : Node := ofShape (.imported name module)
def link (declaration schema : Node) : Node := ofShape (.linked declaration schema)

def record (n : Node) (m : Misuse) : Node := { n with misuse := n.misuse ++ [m] }

-- A reference stands for its definition, which is where annotations go.
def annotate (n : Node) (what : String) (change : Annotations → Annotations) : Node :=
  match n.shape with
  | .reference name => n.record (.annotatedReference name what)
  | _ => { n with annotations := change n.annotations }

def title (n : Node) (text : String) : Node :=
  n.annotate "title" fun a => { a with title := some text }

def description (n : Node) (text : String) : Node :=
  n.annotate "description" fun a => { a with description := some text }

def addExample (n : Node) (example_ : Json) : Node :=
  n.annotate "examples" fun a =>
    bif a.examples.any (·.same example_) then a
    else { a with examples := a.examples ++ [example_] }

def deprecated (n : Node) (note : String) : Node :=
  n.annotate "deprecated" fun a => { a with deprecated := some note }

def comment (n : Node) (text : String) : Node :=
  n.annotate "comment" fun a => { a with comment := some text }

def pattern (n : Node) (text : String) : Node :=
  match n.shape with
  | .string => { n with annotations := { n.annotations with pattern := some text } }
  | shape => n.record (.pattern shape.kindName)

-- Keeps a default that is already there.
def optional (n : Node) : Node :=
  match n.optionality with
  | .required => { n with optionality := .optional none }
  | .optional _ => n

def optionalWith (n : Node) (default : Json) : Node :=
  { n with optionality := .optional (some default) }

def onlyIn (n : Node) (variant : Variant) : Node := { n with restriction := .only variant }

-- Changes an object; on any other node the misuse is recorded instead.
def alterObject (n : Node) (misuse : String → Misuse)
    (change : ObjectShape Node → ObjectShape Node) : Node :=
  match n.shape with
  | .object o => { n with shape := .object (change o) }
  | shape => n.record (misuse shape.kindName)

def property (n : Node) (p : Property Node) : Node :=
  n.alterObject (.property p.name) fun o => { o with properties := o.properties ++ [p] }

def extending (n : Node) (parent : Node) : Node :=
  n.alterObject .parent fun o =>
    bif o.parents.any (·.same parent) then o else { o with parents := o.parents ++ [parent] }

def additional (n : Node) (node : Node) : Node :=
  n.alterObject .additional fun o => { o with additional := .shape node }

def allowAdditional (n : Node) : Node :=
  n.alterObject .additional fun o => { o with additional := .allowed }

def named (n : Node) (naming : Naming) : Node :=
  match n.shape with
  | .enumeration values _ => { n with shape := .enumeration values (some naming) }
  | shape => n.record (.naming shape.kindName)

def emittingDeclaration (n : Node) (text : Marked String) : Node :=
  match n.shape with
  | .raw _ schema => { n with shape := .raw (some text) schema }
  | shape => n.record (.emitter .declarations shape.kindName)

def emittingSchema (n : Node) (schema : Marked Json) : Node :=
  match n.shape with
  | .raw declaration _ => { n with shape := .raw declaration (some schema) }
  | shape => n.record (.emitter .schema shape.kindName)

end Node
end TwinShape
