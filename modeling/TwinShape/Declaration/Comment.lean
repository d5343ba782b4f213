import TwinShape.Json.Printer
import TwinShape.Node.Basic
import TwinShape.Text.Lines

namespace TwinShape

-- The lines of a documentation comment, none if there is nothing to say.
abbrev DocComment := List String

namespace DocComment

def paragraph (lines : DocComment) : Option String → DocComment
  | none => lines
  | some text => (if lines.isEmpty then [] else lines ++ [""]) ++ Text.lines text

-- The texts as paragraphs, then the default and the deprecation as tags.
def ofAnnotations (a : Annotations) (default : Option Json) : DocComment :=
  let lines := paragraph (paragraph (paragraph [] a.title) a.description) a.comment
  let tag {α : Type} (name : String) (write : α → String) (argument : Option α) : DocComment :=
    argument.toList.map fun x => name ++ write x
  lines ++ tag "@default " Json.compact default ++ tag "@deprecated " id a.deprecated

def ofNode (n : Node) : DocComment := ofAnnotations n.annotations n.default?

-- The sign that ends a comment must not occur inside one.
def guard : List Char → List Char
  | '*' :: '/' :: rest => '*' :: '\\' :: '/' :: guard rest
  | c :: rest => c :: guard rest
  | [] => []

def lineText (pad line : String) : String :=
  if line = "" then pad ++ " *\n" else pad ++ " * " ++ String.ofList (guard line.toList) ++ "\n"

def text (depth : Nat) (lines : DocComment) : String :=
  if lines.isEmpty then ""
  else
    let pad := Text.indent depth
    pad ++ "/**\n" ++ String.join (lines.map (lineText pad)) ++ pad ++ " */\n"

end DocComment
end TwinShape
