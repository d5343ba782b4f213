import TwinShape.Catalog.Basic

namespace TwinShape.Catalog

def expression : Node :=
  explained (.arrayOf (.unionOf [.string, .number, .boolean, .null, .referenceTo "Expression"]))
      "Expression" "A function call: the function name followed by its arguments"
    |>.addExample (.array [.string "equals", Json.strings ["component", "myInput"], .string "yes"])

def layoutFile : Node :=
  let component := Node.link (.importOf "CompOrGroupExternal" "src/layout/layout.d")
    (Node.raw.emittingSchema ⟨⟨"ILayoutFile", []⟩,
      .object [("$ref", .string "#/definitions/AnyComponent")]⟩)
  let hidden := explained (orExpression .boolean) "Hidden"
      "Expression that will hide the page/form layout if true"
    |>.optionalWith (.bool false)
  explained (.ofProperties [
      .of "$schema" Node.string.optional,
      .of "data" (.ofProperties [.of "layout" (.arrayOf component), .of "hidden" hidden])])
    "Altinn layout" "Schema that describes the layout configuration for Altinn applications."

def anyComponent : Node :=
  Node.ofProperties [.of "type" (explained .string "Type" "The component type")]
    |>.extending (.referenceTo "ComponentBase")
    |>.allowAdditional

def labelSettings : Node :=
  .ofProperties [.of "optionalIndicator"
    (explained Node.boolean.optional "Optional indicator" "Show optional indicator on label")]

def pageBreak : Node :=
  let breaking (place : String) :=
    explained ((orExpression .string).optionalWith (.string "auto")) ("Page break " ++ place)
        ("PDF only: Value or expression indicating whether a page break should be added " ++ place ++
          " the component. Can be either: 'auto' (default), 'always', or 'avoid'.")
      |> example? "auto" |> example? "always" |> example? "avoid"
  explained (.ofProperties [.of "breakBefore" (breaking "before"), .of "breakAfter" (breaking "after")])
    "Page break" "Optionally insert page-break before/after component when rendered in PDF"

def layoutStyle : Node :=
  explained ((choice ["column", "row", "table"]).named ⟨⟨"LayoutStyle", []⟩, Literal.pascalCase⟩)
    "Layout" "Define the layout style for the options"

def gridSize : Node :=
  .unionOf [.constantOf (.string "auto"), counts 1 12]

def gridStyling : Node :=
  .ofProperties (["xs", "sm", "md", "lg", "xl"].map fun size =>
    .of size ((Node.referenceTo "IGridSize").optionalWith (.string "auto")))

def grid : Node :=
  let styling := (Node.referenceTo "IGridStyling").optional
  explained
    (Node.ofProperties [.of "labelGrid" styling, .of "innerGrid" styling]
      |>.extending (.referenceTo "IGridStyling"))
    "Grid" "Settings for the components grid. Used for controlling horizontal alignment"

def panelBase : Node :=
  .ofProperties [
    .of "variant" (explained (choice ["info", "warning", "error", "success"]).optional
      "Panel variant" "Change the look of the panel"),
    .of "showIcon" (explained (Node.boolean.optionalWith (.bool true))
      "Show icon" "Show icon in the panel header")]

def layout : List Definition := [
  ⟨"Expression", expression⟩, ⟨"ILayoutFile", layoutFile⟩, ⟨"AnyComponent", anyComponent⟩,
  ⟨"ILabelSettings", labelSettings⟩, ⟨"IPageBreak", pageBreak⟩, ⟨"LayoutStyle", layoutStyle⟩,
  ⟨"IGridSize", gridSize⟩, ⟨"IGridStyling", gridStyling⟩, ⟨"IGrid", grid⟩,
  ⟨"IPanelBase", panelBase⟩]

end TwinShape.Catalog
