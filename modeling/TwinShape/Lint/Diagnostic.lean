import TwinShape.Schema.Validation

namespace TwinShape

inductive Severity where
  | error | warning
deriving DecidableEq

def Severity.name : Severity → String
  | .error => "error"
  | .warning => "warning"

inductive Concern where
  | build (f : Fault)
  | projection (v : Variant) (f : Fault)
  | declaration (f : Fault)
  | schema (f : Fault)
  | unusableSchema (why : String)
  | badExample (value : Json) (why : String)
  | badDefault (value : Json) (why : String)
  | duplicateLiteral (value : Literal)
  | singleMember (v : Variant)

namespace Concern

def severity : Concern → Severity
  | .duplicateLiteral _ | .singleMember _ => .warning
  | _ => .error

def code : Concern → String
  | .build _ | .projection .. | .declaration _ | .schema _ | .unusableSchema _ => "E001"
  | .badExample .. => "E002"
  | .badDefault .. => "E003"
  | .duplicateLiteral _ => "W001"
  | .singleMember _ => "W002"

def message : Concern → String
  | .build f => "build failed: " ++ f.message
  | .projection v f => v.name ++ " projection failed: " ++ f.message
  | .declaration f => "declaration emission failed: " ++ f.message
  | .schema f => "schema emission failed: " ++ f.message
  | .unusableSchema why => "schema does not compile: " ++ why
  | .badExample value why => "example " ++ value.compact ++ " is invalid: " ++ why
  | .badDefault value why => "default " ++ value.compact ++ " is invalid: " ++ why
  | .duplicateLiteral l => "duplicate enum literal " ++ l.toJson.compact
  | .singleMember v => "union has a single member in the " ++ v.name ++ " variant"

end Concern

structure Diagnostic where
  place : Place
  concern : Concern

inductive Status where
  | ok | warning | error
deriving DecidableEq

def Status.name : Status → String
  | .ok => "ok"
  | .warning => "warning"
  | .error => "error"

-- What has been found about one definition, in the order in which it was found.
structure DefinitionReport where
  definition : String
  diagnostics : List Diagnostic

namespace DefinitionReport

-- The worst finding decides.
def status (r : DefinitionReport) : Status :=
  bif r.diagnostics.any (·.concern.severity == .error) then .error
  else bif r.diagnostics.isEmpty then .ok
  else .warning

def toJson (r : DefinitionReport) : Json :=
  let entry (d : Diagnostic) : Json := .object [
    ("severity", .string d.concern.severity.name), ("code", .string d.concern.code),
    ("definition", .string r.definition), ("path", .string d.place.text),
    ("message", .string d.concern.message)]
  .object ([("definition", .string r.definition), ("status", .string r.status.name)] ++
    if r.diagnostics.isEmpty then [] else [("diagnostics", .array (r.diagnostics.map entry))])

end DefinitionReport

structure LintReport where
  -- Whether a warning fails a definition.
  strict : Bool
  results : List DefinitionReport

namespace LintReport

def checked (r : LintReport) : Nat := r.results.length

def count (r : LintReport) (s : Severity) : Nat :=
  (r.results.flatMap (·.diagnostics)).countP (·.concern.severity == s)

def fails (r : LintReport) (d : DefinitionReport) : Bool :=
  if r.strict then d.status != .ok else d.status == .error

def failed (r : LintReport) : Nat := r.results.countP r.fails

def passed (r : LintReport) : Nat := r.results.countP (!r.fails ·)

theorem passed_add_failed (r : LintReport) : r.passed + r.failed = r.checked := by
  have := List.length_eq_countP_add_countP r.fails (l := r.results)
  simp only [passed, failed, checked, this]
  simp only [Bool.not_eq_true, Bool.decide_eq_false]
  omega

def isOk (r : LintReport) : Bool := r.count .error == 0

end LintReport
end TwinShape
