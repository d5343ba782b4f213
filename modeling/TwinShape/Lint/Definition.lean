import TwinShape.Declaration.Drafting
import TwinShape.Lint.Diagnostic
import TwinShape.Lint.Visit

namespace TwinShape

def repeatedLiterals (seen : List Literal) : List Literal → List Literal
  | [] => []
  | l :: rest => (bif seen.any l.same then [l] else []) ++ repeatedLiterals (l :: seen) rest

-- Looks at a definition as it is written, so parents given inline count as well.
def duplicateLiterals (n : Node) : List Diagnostic :=
  (n.visited .root).flatMap fun (place, n) =>
    match n.shape with
    | .enumeration values _ =>
      (repeatedLiterals [] values).map fun l => ⟨place.child "enum", .duplicateLiteral l⟩
    | _ => []

def isSingleUnion (n : Node) : Bool :=
  match n.shape with
  | .union [_] => true
  | _ => false

def singleUnionPlaces (n : Node) : List Place :=
  ((n.visited .root).filter fun (_, n) => isSingleUnion n).map fun (place, _) => place.child "anyOf"

def addSingleUnions (v : Variant) (found : List Diagnostic) (places : List Place) :
    List Diagnostic :=
  places.foldl (fun found place =>
    bif found.any fun d => d.concern.code == "W002" && d.place.text == place.text then found
    else found ++ [⟨place, .singleMember v⟩]) found

def withDefinitions (schema definitions : Json) : Json :=
  match schema with
  | .object fields => .object (Table.set fields Container.definitions.key definitions)
  | schema => schema

def badExamples (check : Json → Evaluation SchemaError) (place : Place) (i : Nat) :
    List Json → Option (List Diagnostic)
  | [] => some []
  | value :: rest => do
    let first ← (check value).first?
    let others ← badExamples check place (i + 1) rest
    some ((first.toList.map fun e => ⟨place.item "examples" i, .badExample value e.message⟩) ++ others)

def badDefault (check : Json → Evaluation SchemaError) (place : Place) :
    Option Json → Option (List Diagnostic)
  | none => some []
  | some value => do
    let first ← (check value).first?
    some (first.toList.map fun e => ⟨place.child "default", .badDefault value e.message⟩)

def badValues (check : Json → Evaluation SchemaError) (place : Place) (n : Node) :
    Option (List Diagnostic) := do
  let examples ← badExamples check place 0 n.annotations.examples
  let default ← badDefault check place n.default?
  some (examples ++ default)

namespace Registry

-- Checks the examples and the default of a node against the node's own schema.
def checkValues (r : Registry) (definition : String) (definitions : Json) (place : Place) (n : Node)
    (m : Memory) : Option (List Diagnostic) × Memory :=
  match r.nodeSchema definition n .definitions m with
  | (.error f, m) => (some [⟨place, .schema f⟩], m)
  | (.ok none, m) => (some [], m)
  | (.ok (some schema), m) =>
    match r.engines.schema (withDefinitions schema definitions) with
    | .error why => (some [⟨place, .unusableSchema why⟩], m)
    | .ok check => (badValues check place n, m)

def checkAllValues (r : Registry) (definition : String) (definitions : Json) :
    List (Place × Node) → Memory → Option (List Diagnostic) × Memory
  | [], m => (some [], m)
  | (place, n) :: rest, m =>
    bif n.annotations.examples.isEmpty && n.default?.isNone then
      r.checkAllValues definition definitions rest m
    else
      match r.checkValues definition definitions place n m with
      | (none, m) => (none, m)
      | (some found, m) =>
        let (others, m) := r.checkAllValues definition definitions rest m
        (others.map (found ++ ·), m)

def lintProjection (r : Registry) (name : String) (v : Variant) (found : List Diagnostic)
    (m : Memory) : Except (List Diagnostic) (Option Node × List Diagnostic) × Memory :=
  match r.projectDefinition name v m with
  | (.error f, m) => (.error (found ++ [⟨.root, .projection v f⟩]), m)
  | (.ok none, m) => (.ok (none, found), m)
  | (.ok (some n), m) => (.ok (some n, addSingleUnions v found (singleUnionPlaces n)), m)

def lintDeclaration (r : Registry) (name : String) (m : Memory) : List Diagnostic × Memory :=
  match r.declarationsFor [name] DeclarationStyle.usual.internalSuffix m with
  | (.error f, m) => ([⟨.root, .declaration f⟩], m)
  | (.ok _, m) => ([], m)

def lintSchema (r : Registry) (name : String) (external : Node) (m : Memory) :
    Option (List Diagnostic) × Memory :=
  match r.schemaFor [name] .plain m with
  | (.error f, m) => (some [⟨.root, .schema f⟩], m)
  | (.ok reachable, m) =>
    let (full, m) := r.schema .plain m
    let document := match full with
      | .ok document => document
      | .error _ => reachable
    let definitions := (document.field? Container.definitions.key).getD (.object [])
    r.checkAllValues name definitions (external.visited .root) m

def diagnostics (r : Registry) (name : String) (m : Memory) : Option (List Diagnostic) × Memory :=
  match r.resolve name m with
  | (.error f, m) => (some [⟨.root, .build f⟩], m)
  | (.ok ⟨n, _⟩, m) =>
    match r.lintProjection name .external (duplicateLiterals n) m with
    | (.error found, m) => (some found, m)
    | (.ok (external, found), m) =>
      match r.lintProjection name .internal found m with
      | (.error found, m) => (some found, m)
      | (.ok (_, found), m) =>
        let (unwritten, m) := r.lintDeclaration name m
        match external with
        | none => (some (found ++ unwritten), m)
        | some external =>
          let (others, m) := r.lintSchema name external m
          (others.map (found ++ unwritten ++ ·), m)

def lintDefinition (r : Registry) (name : String) (m : Memory) : Option DefinitionReport × Memory :=
  let (found, m) := r.diagnostics name m
  (found.map (⟨name, ·⟩), m)

def lintEach (r : Registry) : List String → Memory → Option (List DefinitionReport) × Memory
  | [], m => (some [], m)
  | name :: rest, m =>
    match r.lintDefinition name m with
    | (none, m) => (none, m)
    | (some report, m) =>
      let (reports, m) := r.lintEach rest m
      (reports.map (report :: ·), m)

def lint (r : Registry) (strict : Bool) (m : Memory) : Option LintReport × Memory :=
  let (results, m) := r.lintEach r.names m
  (results.map (⟨strict, ·⟩), m)

end Registry
end TwinShape
