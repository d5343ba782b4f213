import TwinShape.Node.Check

namespace TwinShape

-- What stops a definition from being built, projected or written out. Each fault
-- names the definition that it belongs to.
inductive Fault where
  | duplicateDefinition (name : String)
  | construction (definition : String) (finding : Finding)
  | unknownDefinition (referencing missing : String)
  | absentInVariant (definition missing : String) (variant : Variant)
  | cyclicExtends (definition : String) (chain : List String)
  | extendsCollision (definition property : String)
  | invalidExtends (definition found : String)
  | missingRawBackend (definition : String) (backend : Backend)
  | unsupported (definition kind : String) (backend : Backend)

namespace Fault

def definition : Fault → String
  | .duplicateDefinition name => name
  | .construction definition _ => definition
  | .unknownDefinition referencing _ => referencing
  | .absentInVariant definition _ _ => definition
  | .cyclicExtends definition _ => definition
  | .extendsCollision definition _ => definition
  | .invalidExtends definition _ => definition
  | .missingRawBackend definition _ => definition
  | .unsupported definition _ _ => definition

def message : Fault → String
  | .duplicateDefinition name => "definition '" ++ name ++ "' is already registered"
  | .construction definition finding =>
    "invalid definition '" ++ definition ++ "' at " ++ finding.place.text ++ ": " ++
      finding.flaw.message
  | .unknownDefinition referencing missing =>
    "'" ++ referencing ++ "' references unknown definition '" ++ missing ++ "'"
  | .absentInVariant definition missing variant =>
    "'" ++ definition ++ "' references '" ++ missing ++ "', which has no " ++ variant.name ++ " shape"
  | .cyclicExtends definition chain =>
    "definition '" ++ definition ++ "' extends itself: " ++ " -> ".intercalate chain
  | .extendsCollision definition property =>
    "property '" ++ property ++ "' of '" ++ definition ++
      "' is inherited from more than one parent with different shapes"
  | .invalidExtends definition found =>
    "'" ++ definition ++ "' can only extend object shapes, found " ++ found
  | .missingRawBackend definition backend =>
    "raw node in '" ++ definition ++ "' has no " ++ backend.name ++ " implementation"
  | .unsupported definition kind backend =>
    kind ++ " node in '" ++ definition ++ "' cannot be emitted by the " ++ backend.name ++ " backend"

def exitCode : Fault → Nat := fun _ => 2

end Fault
end TwinShape
