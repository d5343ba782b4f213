import TwinShape.Declaration.Document
import TwinShape.Variation

namespace TwinShape

-- How far the writing of declarations has come. The place of a declaration is taken
-- before its body is written, and stays empty until then.
structure Draft where
  memory : Memory
  slots : Table (Option Declaration)
  imports : Table (List String)

abbrev Drafting (α : Type) := Inquiry Draft Fault α

namespace Drafting

def ask {α : Type} (q : Question α) : Drafting α :=
  Inquiry.within Draft.memory (fun d m => { d with memory := m }) q

def fill (name : String) (declaration : Option Declaration) : Drafting Unit :=
  Inquiry.learn fun d => { d with slots := d.slots.set name declaration }

def takeImport (module name : String) : Drafting Unit :=
  Inquiry.learn fun d =>
    let names := (d.imports.get? module).getD []
    { d with imports := d.imports.set module (if name ∈ names then names else names ++ [name]) }

end Drafting

def declaredName (suffix name : String) (apart : Bool) : String :=
  if apart then name ++ suffix else name

namespace Registry

def isApart (r : Registry) (name : String) : Variant → Memory → Bool × Memory
  | .external, m => (false, m)
  | .internal, m => r.differs name m

def declarationName (r : Registry) (suffix name : String) (v : Variant) (m : Memory) :
    String × Memory :=
  let (apart, m) := r.isApart name v m
  (declaredName suffix name apart, m)

def declarable (r : Registry) (suffix : String) : List String :=
  r.names ++ r.names.map (· ++ suffix)

theorem declaredName_mem {r : Registry} {name : String} (registered : name ∈ r.names)
    (suffix : String) (apart : Bool) : declaredName suffix name apart ∈ r.declarable suffix := by
  cases apart
  · exact List.mem_append_left _ registered
  · exact List.mem_append_right _ (List.mem_map_of_mem registered)

end Registry

-- Whether `[]` behind the type of a node would bind to a part of it only.
def needsGrouping : Node → Bool
  | ⟨.union members, _, _, _, _⟩ => 1 < members.length
  | ⟨.enumeration values _, _, _, _, _⟩ => 1 < values.length
  | ⟨.linked declaration _, _, _, _, _⟩ => needsGrouping declaration
  | ⟨.raw .., _, _, _, _⟩ => true
  | _ => false

-- What a declaration is written for, and the names of those that are being written.
structure DraftScope where
  suffix : String
  variant : Variant
  writing : List String
  -- The definition that faults are blamed on.
  definition : String

def DraftScope.unwritten (r : Registry) (s : DraftScope) : Nat :=
  Registry.unvisitedIn (r.declarable s.suffix) s.writing

mutual
-- The type of a projected node at some depth of indentation. What it refers to is declared
-- first, unless it is declared already or is just being written.
def typeOf (r : Registry) (s : DraftScope) (depth : Nat) (n : Node) : Drafting TypeExpr :=
  match n with
  | ⟨shape, _, _, _, _⟩ =>
    match shape with
    | .object ⟨properties, additional, _⟩ => do
      let members ← membersOf r s depth properties
      let index ← indexOf r s depth additional
      pure (.record members index)
    | .array item => do
      let type ← typeOf r s depth item
      pure (.array type (needsGrouping item))
    | .union options => do
      let types ← typesOf r s depth options
      pure (.alternatives (TypeExpr.distinctOptions depth types))
    | .enumeration values _ => pure (.alternatives (values.map .literal))
    | .constant value => pure (.literal value)
    | .string => pure (.keyword "string")
    | .number | .integer => pure (.keyword "number")
    | .boolean => pure (.keyword "boolean")
    | .null => pure (.keyword "null")
    | .reference name => do
      match ← declare r s name with
      | some declared => pure (.named declared)
      | none => Inquiry.fail (.absentInVariant s.definition name s.variant)
    | .raw declaration _ =>
      match declaration with
      | some text => pure (.verbatim text.content)
      | none => Inquiry.fail (.missingRawBackend s.definition .declarations)
    | .imported name module => do
      Drafting.takeImport module name
      pure (.named name)
    | .linked declaration _ => typeOf r s depth declaration
termination_by (s.unwritten r, sizeOf n, 0)

def typesOf (r : Registry) (s : DraftScope) (depth : Nat) (nodes : List Node) :
    Drafting (List TypeExpr) :=
  match nodes with
  | [] => pure []
  | n :: rest => do
    let type ← typeOf r s depth n
    let types ← typesOf r s depth rest
    pure (type :: types)
termination_by (s.unwritten r, sizeOf nodes, 0)

def membersOf (r : Registry) (s : DraftScope) (depth : Nat) (properties : List (Property Node)) :
    Drafting (List (Member TypeExpr)) :=
  match properties with
  | [] => pure []
  | ⟨name, value, _⟩ :: rest => do
    let type ← typeOf r s (depth + 1) value
    let members ← membersOf r s depth rest
    pure (⟨.ofNode value, name, value.isOptional, type⟩ :: members)
termination_by (s.unwritten r, sizeOf properties, 0)

def indexOf (r : Registry) (s : DraftScope) (depth : Nat) (additional : Additional Node) :
    Drafting (Option TypeExpr) :=
  match additional with
  | .forbidden => pure none
  | .allowed => pure (some (.keyword "unknown"))
  | .shape n => do
    let type ← typeOf r s (depth + 1) n
    pure (some type)
termination_by (s.unwritten r, sizeOf additional, 0)

def bodyOf (r : Registry) (s : DraftScope) (n : Node) : Drafting DeclaredAs :=
  match n with
  | ⟨.object ⟨properties, additional, _⟩, _, _, _, _⟩ => do
    let members ← membersOf r s 0 properties
    let index ← indexOf r s 0 additional
    pure (.interface members index)
  | ⟨.enumeration values (some naming), _, _, _, _⟩ =>
    pure (.enumeration (values.map fun value => (naming.symbol value, value)))
  | n => do
    let type ← typeOf r s 0 n
    pure (.alias_ type)
termination_by (s.unwritten r, sizeOf n, 1)

def declare (r : Registry) (s : DraftScope) (name : String) : Drafting (Option String) := do
  let apart ← Drafting.ask (Inquiry.ofTotal (r.isApart name s.variant))
  let declared := declaredName s.suffix name apart
  let draft ← Inquiry.read
  if _taken : declared ∈ s.writing ∨ draft.slots.has declared then pure (some declared)
  else do
    let ⟨n, _found⟩ ← Drafting.ask (r.resolve name)
    match ← Drafting.ask (r.project name n s.variant) with
    | none => pure none
    | some n => do
      Drafting.fill declared none
      let body ← bodyOf r { s with writing := declared :: s.writing, definition := name } n
      Drafting.fill declared (some ⟨declared, .ofNode n, body⟩)
      pure (some declared)
termination_by (s.unwritten r, 0, 0)
decreasing_by
  exact .left _ _ (Registry.unvisitedIn_cons_lt
    (Registry.declaredName_mem (r.mem_names_of_find? _found) _ _) (fun busy => _taken (.inl busy)))
end

namespace Registry

def declareAll (r : Registry) (suffix : String) : List String → Drafting Unit
  | [] => pure ()
  | name :: rest => do
    let _ ← declare r ⟨suffix, .external, [], ""⟩ name
    let apart ← Drafting.ask (Inquiry.ofTotal (r.differs name))
    if apart then do
      let _ ← declare r ⟨suffix, .internal, [], ""⟩ name
      declareAll r suffix rest
    else declareAll r suffix rest

-- The declarations of the given definitions and of everything they refer to. A definition
-- whose shapes differ is declared twice.
def declarationsFor (r : Registry) (names : List String) (suffix : String) :
    Question DeclarationDocument := fun m =>
  match r.declareAll suffix names ⟨m, [], []⟩ with
  | (.ok (), d) => (.ok ⟨d.imports, d.slots.filterMap (·.2)⟩, d.memory)
  | (.error fault, d) => (.error fault, d.memory)

def declarations (r : Registry) (suffix : String) : Question DeclarationDocument :=
  r.declarationsFor r.names suffix

end Registry
end TwinShape
