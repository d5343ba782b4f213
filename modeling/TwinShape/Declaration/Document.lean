import TwinShape.Declaration.Type

namespace TwinShape

inductive DeclaredAs where
  | interface (members : List (Member TypeExpr)) (index : Option TypeExpr)
  -- Each member with its symbol.
  | enumeration (members : List (String × Literal))
  | alias_ (type : TypeExpr)

structure Declaration where
  name : String
  comment : DocComment
  body : DeclaredAs

def Declaration.text (d : Declaration) : String :=
  d.comment.text 0 ++
    match d.body with
    | .interface members index =>
      "export interface " ++ d.name ++ " " ++ (TypeExpr.record members index).write 0
    | .enumeration members =>
      let line (m : String × Literal) :=
        Text.indent 1 ++ m.1 ++ " = " ++ TypeExpr.literalText m.2 ++ ","
      "export enum " ++ d.name ++ " \x7b\n" ++ "\n".intercalate (members.map line) ++ "\n\x7d"
    | .alias_ type => "export type " ++ d.name ++ " = " ++ type.write 0 ++ ";"

-- What is written around the declarations, and how internal ones are named.
structure DeclarationStyle where
  internalSuffix : String
  preamble : List String
  header : Option String

def DeclarationStyle.usual : DeclarationStyle :=
  ⟨"Internal", [], some "This file is generated. Do not edit."⟩

structure DeclarationDocument where
  -- Each module with the names that are taken from it.
  imports : Table (List String)
  declarations : List Declaration

-- A part with nothing in it leaves no trace; any other is set off by an empty line.
def setOff (lines : List String) : String :=
  if lines.isEmpty then "" else String.join (lines.map (· ++ "\n")) ++ "\n"

def DeclarationDocument.text (d : DeclarationDocument) (style : DeclarationStyle) : String :=
  let header := match style.header with
    | none => ""
    | some text => String.join ((Text.lines text).map fun line => "// " ++ line ++ "\n") ++ "\n"
  let importLine (i : String × List String) :=
    "import type \x7b " ++ ", ".intercalate i.2 ++ " \x7d from '" ++ i.1 ++ "';"
  header ++ setOff (d.imports.map importLine) ++ setOff style.preamble ++
    "\n\n".intercalate (d.declarations.map Declaration.text) ++ "\n"

end TwinShape
