import TwinShape.Projection.Basic

namespace TwinShape

-- What a comparison of the two shapes has come to. Likeness may lean on a definition
-- that is itself still being compared and was taken to be alike.
inductive Contrast where
  | differs
  | alike (leaned : Bool)

namespace Contrast

def isDifference : Contrast → Bool
  | .differs => true
  | .alike _ => false

-- The first difference settles the matter; what comes after it is not looked at.
def andThen (first : Contrast × Memory) (next : Memory → Contrast × Memory) : Contrast × Memory :=
  match first with
  | (.differs, m) => (.differs, m)
  | (.alike leaned, m) =>
    match next m with
    | (.differs, m) => (.differs, m)
    | (.alike too, m) => (.alike (leaned || too), m)

end Contrast

-- A definition that cannot be projected does not differ; whoever writes it out reports why.
def projectionsDiffer (r : Registry) (name : String) (m : Memory) : Bool × Memory :=
  let (internal, m) := r.projectDefinition name .internal m
  let (external, m) := r.projectDefinition name .external m
  match internal, external with
  | .ok i, .ok e => (!sameOption Node.same i e, m)
  | _, _ => (false, m)

-- A difference is remembered, and so is a likeness that leaned on nothing.
def Memory.rememberContrast (m : Memory) (name : String) : Contrast → Memory
  | .differs => { m with variation := (name, true) :: m.variation }
  | .alike false => { m with variation := (name, false) :: m.variation }
  | .alike true => m

mutual
-- Whether anything that a node holds or refers to is restricted to one variant, or has two
-- different projections.
def nodeContrast (r : Registry) (checking : List String) (n : Node) (m : Memory) :
    Contrast × Memory :=
  match n with
  | ⟨shape, _, _, restriction, _⟩ =>
    if restriction.isRestricted then (.differs, m) else shapeContrast r checking shape m
termination_by (r.unvisited checking, sizeOf n)

def shapeContrast (r : Registry) (checking : List String) (shape : Shape Node) (m : Memory) :
    Contrast × Memory :=
  match shape with
  | .object ⟨properties, additional, parents⟩ =>
    Contrast.andThen (propertiesContrast r checking properties m) fun m =>
      Contrast.andThen (additionalContrast r checking additional m) fun m =>
        nodesContrast r checking parents m
  | .array item => nodeContrast r checking item m
  | .union members => nodesContrast r checking members m
  | .linked declaration schema =>
    Contrast.andThen (nodeContrast r checking declaration m) fun m =>
      nodeContrast r checking schema m
  | .reference name => definitionContrast r checking name m
  | _ => (.alike false, m)
termination_by (r.unvisited checking, sizeOf shape)

def propertiesContrast (r : Registry) (checking : List String) (properties : List (Property Node))
    (m : Memory) : Contrast × Memory :=
  match properties with
  | [] => (.alike false, m)
  | ⟨_, value, restriction⟩ :: rest =>
    if restriction.isRestricted then (.differs, m)
    else
      Contrast.andThen (nodeContrast r checking value m) fun m =>
        propertiesContrast r checking rest m
termination_by (r.unvisited checking, sizeOf properties)

def additionalContrast (r : Registry) (checking : List String) (additional : Additional Node)
    (m : Memory) : Contrast × Memory :=
  match additional with
  | .forbidden | .allowed => (.alike false, m)
  | .shape n => nodeContrast r checking n m
termination_by (r.unvisited checking, sizeOf additional)

def nodesContrast (r : Registry) (checking : List String) (nodes : List Node) (m : Memory) :
    Contrast × Memory :=
  match nodes with
  | [] => (.alike false, m)
  | n :: rest =>
    Contrast.andThen (nodeContrast r checking n m) fun m => nodesContrast r checking rest m
termination_by (r.unvisited checking, sizeOf nodes)

-- A definition that is being compared further out counts as alike, which keeps cycles of
-- references finite.
def definitionContrast (r : Registry) (checking : List String) (name : String) (m : Memory) :
    Contrast × Memory :=
  match m.recallVariation name with
  | some true => (.differs, m)
  | some false => (.alike false, m)
  | none =>
    if _busy : name ∈ checking then (.alike true, m)
    else
      match r.resolve name m with
      | (.error _, m) => (.alike false, m)
      | (.ok ⟨n, _found⟩, m) =>
        match nodeContrast r (name :: checking) n m with
        | (.differs, m) => (.differs, m.rememberContrast name .differs)
        | (.alike leaned, m) =>
          let (apart, m) := projectionsDiffer r name m
          let contrast := if apart then .differs else .alike leaned
          (contrast, m.rememberContrast name contrast)
termination_by (r.unvisited checking, 0)
decreasing_by
  exact .left _ _ (r.unvisited_cons_lt (r.mem_names_of_find? _found) _busy)
end

-- The top-level properties that only one of the two shapes has.
structure VariationEntry where
  name : String
  differs : Bool
  internalOnly : List String
  externalOnly : List String

namespace Registry

-- Whether a definition needs two declarations. Unknown and broken ones do not.
def differs (r : Registry) (name : String) (m : Memory) : Bool × Memory :=
  let (contrast, m) := definitionContrast r [] name m
  (contrast.isDifference, m)

def nodeDiffers (r : Registry) (n : Node) (m : Memory) : Bool × Memory :=
  let (contrast, m) := nodeContrast r [] n m
  (contrast.isDifference, m)

def propertyNames (r : Registry) (name : String) (v : Variant) (m : Memory) :
    List String × Memory :=
  match r.projectDefinition name v m with
  | (.ok (some ⟨.object o, _, _, _, _⟩), m) => (o.properties.map (·.name), m)
  | (_, m) => ([], m)

def variationOf (r : Registry) (name : String) (m : Memory) : VariationEntry × Memory :=
  match r.differs name m with
  | (false, m) => (⟨name, false, [], []⟩, m)
  | (true, m) =>
    let (internal, m) := r.propertyNames name .internal m
    let (external, m) := r.propertyNames name .external m
    (⟨name, true, internal.filter (!external.contains ·),
      external.filter (!internal.contains ·)⟩, m)

def variationsOf (r : Registry) : List String → Memory → List VariationEntry × Memory
  | [], m => ([], m)
  | name :: rest, m =>
    let (entry, m) := r.variationOf name m
    let (entries, m) := r.variationsOf rest m
    (entry :: entries, m)

def variationReport (r : Registry) (m : Memory) : List VariationEntry × Memory :=
  r.variationsOf r.names m

end Registry

def VariationEntry.toJson (e : VariationEntry) : Json :=
  let only (key : String) (names : List String) :=
    if names.isEmpty then [] else [(key, Json.strings names)]
  .object ([("name", .string e.name), ("differs", .bool e.differs)] ++
    only "internal_only" e.internalOnly ++ only "external_only" e.externalOnly)

end TwinShape
