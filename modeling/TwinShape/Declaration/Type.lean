import TwinShape.Declaration.Comment
import TwinShape.Node.Literal

namespace TwinShape

structure Member (τ : Type) where
  comment : DocComment
  key : String
  optional : Bool
  type : τ

inductive TypeExpr where
  | keyword (word : String)
  -- A declared or an imported name.
  | named (name : String)
  | literal (value : Literal)
  -- Written as it stands.
  | verbatim (text : String)
  | array (item : TypeExpr) (grouped : Bool)
  | alternatives (options : List TypeExpr)
  -- Besides its members, a record may hold entries of the index type under any key.
  | record (members : List (Member TypeExpr)) (index : Option TypeExpr)

namespace TypeExpr

def quoteChar (c : Char) : List Char := if c = '\\' ∨ c = '\'' then ['\\', c] else [c]

def quote (s : String) : String := String.ofList ('\'' :: s.toList.flatMap quoteChar ++ ['\''])

def literalText : Literal → String
  | .string s => quote s
  | l => l.display

def isIdentifierStart (c : Char) : Bool := c.isAlpha || c == '_' || c == '$'

def isIdentifierPart (c : Char) : Bool := c.isAlphanum || c == '_' || c == '$'

def isIdentifier (name : String) : Bool :=
  match name.toList with
  | [] => false
  | c :: rest => isIdentifierStart c && rest.all isIdentifierPart

def keyText (name : String) : String := bif isIdentifier name then name else quote name

mutual
def write (depth : Nat) : TypeExpr → String
  | .keyword word => word
  | .named name => name
  | .literal value => literalText value
  | .verbatim text => text
  | .array item grouped =>
    bif grouped then "(" ++ item.write depth ++ ")[]" else item.write depth ++ "[]"
  | .alternatives options => " | ".intercalate (writeOptions depth options)
  | .record members index =>
    match writeMembers depth members ++ writeIndex depth index with
    | [] => "\x7b\x7d"
    | lines => "\x7b\n" ++ "\n".intercalate lines ++ "\n" ++ Text.indent depth ++ "\x7d"

def writeOptions (depth : Nat) : List TypeExpr → List String
  | [] => []
  | t :: rest => t.write depth :: writeOptions depth rest

def writeMembers (depth : Nat) : List (Member TypeExpr) → List String
  | [] => []
  | ⟨comment, key, optional, type⟩ :: rest =>
    (comment.text (depth + 1) ++ Text.indent (depth + 1) ++ keyText key ++
      (bif optional then "?" else "") ++ ": " ++ type.write (depth + 1) ++ ";") ::
      writeMembers depth rest

def writeIndex (depth : Nat) : Option TypeExpr → List String
  | none => []
  | some t => [Text.indent (depth + 1) ++ "[key: string]: " ++ t.write (depth + 1) ++ ";"]
end

-- Keeps the first of several options that are written alike at this depth.
def distinctOptions (depth : Nat) (options : List TypeExpr) : List TypeExpr :=
  options.foldl (fun kept t =>
    bif kept.any (·.write depth == t.write depth) then kept else kept ++ [t]) []

end TypeExpr
end TwinShape
