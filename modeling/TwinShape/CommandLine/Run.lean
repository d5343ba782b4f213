import TwinShape.Catalog.Definitions
import TwinShape.CommandLine.Arguments
import TwinShape.CommandLine.Outcome
import TwinShape.CommandLine.Report
import TwinShape.Lint.Definition
import TwinShape.Manifest

namespace TwinShape

def versionText : String := "dualgen 0.3.0\n"

def usageText : String :=
  "Usage: dualgen [-v] <types|schema|diff|validate|lint> [options]\n"

def loadDefinitions (engines : Engines) (disk : Disk) : Option String → Except Output Registry
  | none => .ok (Catalog.registry engines)
  | some path =>
    match disk path with
    | .missing => .error (.failed 3 ("file not found: " ++ path))
    | .unreadable why => .error (.failed 3 ("cannot read " ++ path ++ ": " ++ why))
    | .text s =>
      match Manifest.read engines s with
      | .ok r => .ok r
      | .error _ => .error (.failed 2 "invalid manifest")

def refusal (json : Bool) (code : Nat) (message : String) : Output :=
  if json then
    ⟨code, (Json.object [("valid", .bool false), ("error", .string message)]).compact ++ "\n", ""⟩
  else .failed code message

def loadPayload (disk : Disk) (path : String) (json : Bool) : Except Output Json :=
  match disk path with
  | .missing => .error (refusal json 3 ("payload not found: " ++ path))
  | .unreadable why => .error (refusal json 3 ("cannot read " ++ path ++ ": " ++ why))
  | .text s =>
    match Json.parse? Json.depthLimit s with
    | some j => .ok j.settle
    | none => .error (refusal json 2 "invalid JSON in payload")

-- Text goes to a file if one is named. Nothing is written unless there is a text.
def deliver {α : Type} (output : Option String) (render : α → String) :
    Except Fault α → Outcome
  | .error fault => .output (.failed fault.exitCode fault.message)
  | .ok a =>
    match output with
    | some path => .write path (render a)
    | none => .output (.printed (render a))

def validationOutput (json : Bool) : Except Invalid Unit → Output
  | .ok () => .printed (if json then "\x7b\"valid\":true\x7d\n" else "Valid\n")
  | .error (.fault f) => refusal json f.exitCode f.message
  | .error (.unusable why) => refusal json 2 ("generated schema is not usable: " ++ why)
  | .error (.violated first rest) =>
    let all := first :: rest
    if json then
      let entry (e : SchemaError) : Json :=
        .object [("path", .string e.path), ("message", .string e.message)]
      let document := Json.object [("valid", .bool false), ("errors", .array (all.map entry))]
      ⟨1, document.compact ++ "\n", ""⟩
    else
      let line (e : SchemaError) := "  " ++ e.path ++ ": " ++ e.message ++ "\n"
      ⟨1, "", "Validation failed:\n" ++ String.join (all.map line)⟩

namespace Command

def runOn (disk : Disk) (r : Registry) : Command → Option Outcome
  | .types _ output only style =>
    let names := if only.isEmpty then r.names else only
    some (deliver output (·.text style) (r.declarationsFor names style.internalSuffix .blank).1)
  | .schema _ output pretty options =>
    let render (j : Json) := (if pretty then j.pretty else j.compact) ++ "\n"
    some (deliver output render (r.schema options .blank).1)
  | .diff _ json =>
    let entries := (r.variationReport .blank).1
    some (.output (.printed (if json then (Json.array (entries.map (·.toJson))).pretty ++ "\n"
      else VariationEntry.reportText entries)))
  | .validate _ definition payload json =>
    match loadPayload disk payload json with
    | .error o => some (.output o)
    | .ok j => (r.validate definition j .blank).1.map fun verdict =>
        .output (validationOutput json verdict)
  | .lint manifest json strict quiet =>
    (r.lint strict .blank).1.map fun report =>
      let subject := manifest.getD "built-in catalog"
      .output ⟨if report.succeeds then 0 else 1,
        if json then report.toJson.pretty ++ "\n" else report.text quiet subject, ""⟩

def run (engines : Engines) (disk : Disk) (c : Command) : Option Outcome :=
  match loadDefinitions engines disk c.manifest with
  | .error o => some (.output o)
  | .ok r => c.runOn disk r

end Command

def Stop.output : Stop → Output
  | .misuse => ⟨2, "", usageText⟩
  | .help => .printed usageText
  | .version => .printed versionText

-- The whole program: arguments that make no sense end it before anything is read.
def runProgram (engines : Engines) (arguments : List String) (disk : Disk) : Option Outcome :=
  match Invocation.read arguments with
  | .error stop => some (.output stop.output)
  | .ok i => i.command.run engines disk

end TwinShape
