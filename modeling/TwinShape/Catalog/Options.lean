import TwinShape.Catalog.Basic

namespace TwinShape.Catalog

def bindingDescription (kind : String) : String :=
  "Describes the location in the data model where the component should store its value(s). " ++ kind

def simpleBinding : Node :=
  explained (.ofProperties [.of "simpleBinding" .string]) "Data model binding"
    (bindingDescription
      "A simple binding is used for components that only store a single value, usually a string.")

def listBinding : Node :=
  explained (.ofProperties [.of "list" .string]) "Data model binding"
    (bindingDescription
      "A list binding should be pointed to an array structure in the data model.")

def option : Node :=
  Node.ofProperties [.of "label" .string, .of "value" .string,
      .of "description" Node.string.optional, .of "helpText" Node.string.optional]
    |>.addExample (.object [("label", .string ""), ("value", .string "")])

def mapping : Node :=
  explained ((Node.ofProperties []).additional .string) "Mapping"
    "A mapping of key-value pairs (usually used for mapping a path in the data model to a query string parameter)."

def queryParameters : Node :=
  explained ((Node.ofProperties []).additional .string) "Query parameters"
    "A mapping of query string parameters to values. Will be appended to the URL when fetching options."

def optionSource : Node :=
  let group := explained .string "Group" "The repeating group to base options on."
    |> example? "model.some.group"
  let label := explained (orExpression .string) "Label"
      "A label of the option displayed in Radio- and Checkbox groups."
    |> example? "some.text.key"
  let value := explained .string "Value" "Field in the group that should be used as value"
    |> example? "model.some.group[\x7b0\x7d].someField"
  let description := explained (orExpression .string).optional "Description"
      "A description of the option displayed in Radio- and Checkbox groups."
    |> example? "some.text.key" |> example? "My Description"
  explained (.ofProperties [.of "group" group, .of "label" label, .of "value" value,
      .of "description" description])
    "Option source"
    "Allows for fetching options from the data model, pointing to a repeating group structure"

def selection : Node :=
  .ofProperties [
    .of "optionsId" (explained Node.string.optional "Dynamic options (fetched from server)"
      "ID of the option list to fetch from the server"),
    .of "mapping" (Node.referenceTo "IMapping").optional,
    .of "queryParameters" (Node.referenceTo "IQueryParameters").optional,
    .of "options" (explained (Node.arrayOf (.referenceTo "IOption")).optional "Static options"
      "List of static options"),
    .of "secure" (explained (Node.boolean.optionalWith (.bool false))
      "Secure options (when using optionsId)"
      "Whether to call the secure API endpoint when fetching options from the server"),
    .of "sortOrder" ((choice ["asc", "desc"]).optional
      |>.description "Sorts the code list in either ascending or descending order by label."),
    .of "source" (Node.referenceTo "IOptionSource").optional]

def fullSelection : Node :=
  Node.ofProperties [.of "preselectedOptionIndex" (explained Node.integer.optional
      "Preselected option index"
      "Index of the option to preselect (if no option has been selected yet)")]
    |>.extending (.referenceTo "ISelectionComponent")

def options : List Definition := [
  ⟨"IDataModelBindingsSimple", simpleBinding⟩, ⟨"IDataModelBindingsList", listBinding⟩,
  ⟨"IOption", option⟩, ⟨"IMapping", mapping⟩, ⟨"IQueryParameters", queryParameters⟩,
  ⟨"IOptionSource", optionSource⟩, ⟨"ISelectionComponent", selection⟩,
  ⟨"ISelectionComponentFull", fullSelection⟩]

end TwinShape.Catalog
