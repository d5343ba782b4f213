import TwinShape.Catalog.Basic

namespace TwinShape.Catalog

def componentReference : Node :=
  .ofProperties [.of "component" (explained Node.string.optional "Component ID" "ID of the component")]

def cellLabel : Node :=
  Node.ofProperties [.of "labelFrom" (explained .string "Fetch label from other component"
      "Set this to a component id to display the label from that component")]
    |>.extending (.referenceTo "ITableColumnProperties")

def cellText : Node :=
  Node.ofProperties [
      .of "text" (explained .string "Text"
        "Text to display (can also be a key in text resources)"),
      .of "help" (explained Node.string.optional "Help" "Help text to display")]
    |>.extending (.referenceTo "ITableColumnProperties")

-- Authors point at a component by its id; once loaded, the cell holds the component.
def cell : Node :=
  .unionOf [
    (Node.referenceTo "GridComponentRef").onlyIn .external,
    (Node.importOf "GridComponent" "src/layout/Grid/types").onlyIn .internal,
    .null,
    .referenceTo "GridCellText",
    .referenceTo "GridCellLabelFrom"]

def row : Node :=
  let flag (title : String) := (Node.boolean.optionalWith (.bool false)).title title
  .ofProperties [
    .of "header" (flag "Is header row?"),
    .of "readOnly" (flag "Is row read-only?"),
    .of "columnOptions" (Node.referenceTo "ITableColumnProperties").optional,
    .of "cells" (explained (.arrayOf (.referenceTo "GridCell")) "Cells in table row"
      "The list of cells in this row")]

def rows : Node :=
  explained (.arrayOf (.referenceTo "GridRow")) "Rows in Grid or Grid-like component"
      "The list of rows in this grid"
    |>.addExample (.array [.object [("header", .bool false), ("readOnly", .bool false),
        ("cells", .array [.object [("text", .string "hello.world")],
          .object [("component", .string "myOtherComponent")]])]])

def cells : List Definition := [
  ⟨"GridComponentRef", componentReference⟩, ⟨"GridCellLabelFrom", cellLabel⟩,
  ⟨"GridCellText", cellText⟩, ⟨"GridCell", cell⟩, ⟨"GridRow", row⟩, ⟨"GridRows", rows⟩]

end TwinShape.Catalog
