import TwinShape.Catalog.Basic

namespace TwinShape.Catalog

def alignText : Node :=
  explained (choice ["left", "center", "right"]) "Align Text"
    "Choose text alignment between 'left', 'center', or 'right' for text in table cells."

def textOverflow : Node :=
  .ofProperties [
    .of "lineWrap" (explained (Node.boolean.optionalWith (.bool true)) "Line Wrap"
      "Toggle line wrapping on or off. Defaults to true"),
    .of "maxHeight" (explained (Node.number.optionalWith (.count 2)) "Max Height"
      "Determines the number of lines to display in table cell before hiding the rest. Defaults to 2.")]

def columnFormatting : Node :=
  (Node.ofProperties []).additional (.referenceTo "ITableColumnProperties")

def columnProperties : Node :=
  let width := explained (Node.string.optionalWith (.string "auto")) "Width"
      "Width of cell in % or 'auto'. Defaults to 'auto'"
    |>.pattern "^([0-9]\x7b1,2\x7d%|100%|auto)$"
  explained (.ofProperties [
      .of "width" width,
      .of "alignText" (Node.referenceTo "ITableColumnsAlignText").optional,
      .of "textOverflow" (Node.referenceTo "ITableColumnsTextOverflow").optional])
      "Column options" "Options for the row/column"
    |>.addExample (.object [("width", .string "auto"), ("alignText", .string "left"),
        ("textOverflow", .object [("lineWrap", .bool true), ("maxHeight", .count 2)])])

def columns : List Definition := [
  ⟨"ITableColumnsAlignText", alignText⟩, ⟨"ITableColumnsTextOverflow", textOverflow⟩,
  ⟨"ITableColumnFormatting", columnFormatting⟩, ⟨"ITableColumnProperties", columnProperties⟩]

end TwinShape.Catalog
