import TwinShape.Catalog.Basic

namespace TwinShape.Catalog

-- The last two properties are added when a layout has been loaded.
def componentBase : Node :=
  let id := explained .string "ID"
      "The component ID. Must be unique within all layouts/pages in a layout-set. Cannot end with <dash><number>."
    |>.pattern "^[0-9a-zA-Z][0-9a-zA-Z-]*(-?[a-zA-Z]+|[a-zA-Z][0-9]+|-[0-9]\x7b6,\x7d)$"
  let hidden := explained ((orExpression .boolean).optionalWith (.bool false)) "Hidden"
    "Boolean value or expression indicating if the component should be hidden. Defaults to false."
  .ofProperties [
    .of "id" id,
    .of "hidden" hidden,
    .of "grid" (Node.referenceTo "IGrid").optional,
    .of "pageBreak" (Node.referenceTo "IPageBreak").optional,
    (Property.of "baseComponentId" Node.string.optional).onlyIn .internal,
    (Property.of "multiPageIndex" Node.integer.optional).onlyIn .internal]

def condition (title description : String) : Node :=
  explained ((orExpression .boolean).optionalWith (.bool false)) title description

def formComponent : Node :=
  .ofProperties [
    .of "readOnly" (condition "Read only/disabled?"
      "Boolean value or expression indicating if the component should be read only/disabled."),
    .of "required" (condition "Required?"
      "Boolean value or expression indicating if the component should be required."),
    .of "showValidations" (Node.referenceTo "AllowedValidationMasks").optional]

def summarizableComponent : Node :=
  .ofProperties [.of "renderAsSummary" (condition "Render as summary"
    "Boolean value or expression indicating if the component should be rendered as a summary.")]

def labeledComponent : Node :=
  .ofProperties [.of "labelSettings" (Node.referenceTo "ILabelSettings").optional]

def components : List Definition := [
  ⟨"ComponentBase", componentBase⟩, ⟨"FormComponentProps", formComponent⟩,
  ⟨"SummarizableComponentProps", summarizableComponent⟩,
  ⟨"LabeledComponentProps", labeledComponent⟩]

end TwinShape.Catalog
