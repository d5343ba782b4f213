import TwinShape.Catalog.Basic

namespace TwinShape.Catalog

-- In milliseconds.
def debounce : Nat := 400

def saveWhileTyping : Node :=
  explained (Node.number.optionalWith (.count debounce)) "Automatic saving while typing"
      ("Lets you control how long we wait before saving the value locally while typing. " ++
        "The default value is " ++ toString debounce ++ " milliseconds.")
    |>.comment ("Beware, this used to be a number OR boolean value in v3.\n" ++
      "It can be smart to check the type of this value before using it.")

def headingLevel : Node := counts 2 5

def validationMasks : Node :=
  explained (.arrayOf (choice ["Schema", "Component", "Expression", "CustomBackend", "Required",
      "AllExceptRequired", "All"]))
    "Validation types" "List of validation types to show"

def pageValidation : Node :=
  .ofProperties [
    .of "page" (explained (choice ["current", "currentAndPrevious", "all"]) "Page"
      "Which pages should be validated when the next button is clicked."),
    .of "show" (.referenceTo "AllowedValidationMasks")]

def componentsSettings : Node :=
  .ofProperties [.of "excludeFromPdf" (explained (.arrayOf .string) "Exclude from PDF"
    "List of components to exclude from the PDF generation")]

def globalPageSettings : Node :=
  let flag (title description : String) :=
    explained (Node.boolean.optionalWith (.bool false)) title description
  .ofProperties [
    .of "hideCloseButton" (flag "Hide close button"
      "Hide the close button in the upper right corner of the app"),
    .of "showLanguageSelector" (flag "Show language selector"
      "Show the language selector in the upper right corner of the app"),
    .of "showProgress" (flag "Show progress indicator"
      "Enables a progress indicator in the upper right corner of the app"),
    .of "autoSaveBehavior" (explained
      ((choice ["onChangeFormData", "onChangePage"]).optionalWith (.string "onChangeFormData"))
      "Auto save behavior" "An attribute specifying when the application will save form data.")]

def pagesBaseSettings : Node :=
  .ofProperties [
    .of "order" (explained (.arrayOf .string) "Page order"
      "List of pages in the order they should appear in the application"),
    .of "excludeFromPdf" (explained (Node.arrayOf .string).optional "Exclude from PDF"
      "List of pages to exclude from the PDF generation"),
    .of "pdfLayoutName" (explained Node.string.optional "PDF layout name"
      "Name of a custom layout file to use for PDF creation instead of the automatically generated PDF.")]

def pagesSettings : Node :=
  Node.ofProperties []
    |>.extending (.referenceTo "GlobalPageSettings")
    |>.extending (.referenceTo "IPagesBaseSettings")

def settingsDescription : String := "Settings regarding layout pages and components"

def layoutSettings : Node :=
  let receipt := (Node.string.optional.title "Receipt layout name").deprecated
    "This setting will be moved so that custom receipts can work when reloading the page."
  explained (.ofProperties [
      .of "pages" (.referenceTo "IPagesSettings"),
      .of "components" (Node.referenceTo "IComponentsSettings").optional,
      .of "receiptLayoutName" receipt])
    "Layout settings" settingsDescription

def layoutSets : Node :=
  explained (.ofProperties [
      .of "sets" (explained (.arrayOf (.referenceTo "ILayoutSet")) "Layout sets"
        "List of layout sets for different data types"),
      .of "uiSettings" (Node.referenceTo "GlobalPageSettings").optional])
    "Layout sets" settingsDescription

def layoutSet : Node :=
  explained (.ofProperties [
      .of "id" (explained .string "ID"
        "The layout-set ID. Must be unique within a given application."),
      .of "dataType" (explained .string "Data type" "The datatype to use this layout."),
      .of "tasks" (explained (Node.arrayOf .string).optional "Tasks"
        "An array specifying which task to use a layout-set")])
    "Layout set" "Settings regarding a specific layout-set"

def settings : List Definition := [
  ⟨"SaveWhileTyping", saveWhileTyping⟩, ⟨"HeadingLevel", headingLevel⟩,
  ⟨"AllowedValidationMasks", validationMasks⟩, ⟨"PageValidation", pageValidation⟩,
  ⟨"IComponentsSettings", componentsSettings⟩, ⟨"GlobalPageSettings", globalPageSettings⟩,
  ⟨"IPagesBaseSettings", pagesBaseSettings⟩, ⟨"IPagesSettings", pagesSettings⟩,
  ⟨"ILayoutSettings", layoutSettings⟩, ⟨"ILayoutSets", layoutSets⟩, ⟨"ILayoutSet", layoutSet⟩]

end TwinShape.Catalog
