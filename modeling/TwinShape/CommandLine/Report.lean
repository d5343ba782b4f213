import TwinShape.Json.Printer
import TwinShape.Lint.Diagnostic
import TwinShape.Variation

namespace TwinShape

inductive Color where
  | red | green | yellow

def Color.paint (c : Color) (text : String) : String :=
  let code := match c with
    | .red => "31"
    | .green => "32"
    | .yellow => "33"
  "\x1b[" ++ code ++ "m" ++ text ++ "\x1b[0m"

namespace VariationEntry

-- Internal properties are added ones, external properties are removed ones.
def line (e : VariationEntry) : String :=
  let changes := e.internalOnly.map ("+" ++ ·) ++ e.externalOnly.map ("-" ++ ·)
  if !e.differs then "  " ++ Color.green.paint "=" ++ " " ++ e.name ++ "\n"
  else
    "  " ++ Color.yellow.paint "≠" ++ " " ++ e.name ++
      (if changes.isEmpty then "" else " (internal: " ++ ", ".intercalate changes ++ ")") ++ "\n"

def reportText (entries : List VariationEntry) : String :=
  String.join (entries.map line) ++ "\n" ++ toString entries.length ++ " definitions, " ++
    toString (entries.countP (·.differs)) ++ " with variant differences\n"

end VariationEntry

namespace Status

def icon : Status → String
  | .ok => Color.green.paint "✓"
  | .warning => Color.yellow.paint "⚠"
  | .error => Color.red.paint "✗"

end Status

def Diagnostic.line (d : Diagnostic) : String :=
  let label := d.concern.severity.name ++ "[" ++ d.concern.code ++ "]"
  let color := match d.concern.severity with
    | .error => Color.red
    | .warning => Color.yellow
  "    " ++ color.paint label ++ ": " ++ d.place.text ++ " - " ++ d.concern.message ++ "\n"

-- A quiet report leaves out what is no error: warnings, and definitions without findings.
def DefinitionReport.text (quiet : Bool) (r : DefinitionReport) : String :=
  (if quiet && r.status == .ok then "" else "  " ++ r.status.icon ++ " " ++ r.definition ++ "\n") ++
    String.join ((r.diagnostics.filter fun d => !quiet || d.concern.severity == .error).map
      Diagnostic.line)

namespace LintReport

-- Warnings fail a strict run as a whole.
def succeeds (r : LintReport) : Bool := r.isOk && (!r.strict || r.count .warning == 0)

def verdict (r : LintReport) : String :=
  let checked := toString r.checked ++ " definitions checked"
  if r.succeeds then Color.green.paint ("✓ " ++ checked ++ ", all passed") ++ "\n"
  else
    Color.red.paint ("✗ " ++ checked ++ ": " ++ toString r.passed ++ " passed, " ++
      toString r.failed ++ " failed (" ++ toString (r.count .error) ++ " errors, " ++
      toString (r.count .warning) ++ " warnings)") ++ "\n"

def text (r : LintReport) (quiet : Bool) (subject : String) : String :=
  (if quiet then "" else "Linting " ++ subject ++ " ...\n\n") ++
    String.join (r.results.map (DefinitionReport.text quiet)) ++ "\n" ++ r.verdict

def toJson (r : LintReport) : Json := .object [
  ("definitions_checked", Json.count r.checked), ("passed", Json.count r.passed),
  ("failed", Json.count r.failed), ("errors", Json.count (r.count .error)),
  ("warnings", Json.count (r.count .warning)),
  ("results", .array (r.results.map DefinitionReport.toJson))]

end LintReport
end TwinShape
