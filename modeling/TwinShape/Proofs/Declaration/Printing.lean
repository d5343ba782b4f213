import TwinShape.Declaration.Document

namespace TwinShape

-- Lines with an empty line after them, or nothing at all.
inductive Paragraph : List String → String → Prop
  | nothing : Paragraph [] ""
  | last : Paragraph [line] (line ++ "\n" ++ "\n")
  | line (rest : Paragraph (next :: lines) text) : Paragraph (line :: next :: lines) (line ++ "\n" ++ text)

-- Texts in their order, with an empty line between two of them and the end of a line after the last.
inductive Blocks : List String → String → Prop
  | nothing : Blocks [] "\n"
  | last : Blocks [block] (block ++ "\n")
  | block (rest : Blocks (next :: blocks) text) : Blocks (block :: next :: blocks) (block ++ "\n\n" ++ text)

theorem paragraph_setOff (lines : List String) : Paragraph lines (setOff lines) := by
  cases lines with
  | nil => exact .nothing
  | cons line rest =>
    rw [setOff]
    dsimp only [List.isEmpty_cons]
    rw [if_neg Bool.false_ne_true]
    induction rest generalizing line with
    | nil =>
      rw [List.map_cons, String.join_cons, List.map_nil, String.join_nil, String.append_empty]
      exact .last
    | cons next rest ih =>
      rw [List.map_cons, String.join_cons, String.append_assoc]
      exact .line (ih next)

theorem blocks_intercalate (blocks : List String) : Blocks blocks ("\n\n".intercalate blocks ++ "\n") := by
  cases blocks with
  | nil => exact .nothing
  | cons block rest =>
    induction rest generalizing block with
    | nil =>
      rw [String.intercalate_singleton]
      exact .last
    | cons next rest ih =>
      rw [String.intercalate_cons_cons, String.append_assoc]
      exact .block (ih next)

inductive Header : Option String → String → Prop
  | none : Header none ""
  | comment : Header (some text) (String.join ((Text.lines text).map fun line => "// " ++ line ++ "\n") ++ "\n")

def importLine (names : List String) (module : String) : String :=
  "import type \x7b " ++ ", ".intercalate names ++ " \x7d from '" ++ module ++ "';"

def Declaration.Heads (d : Declaration) : Prop :=
  ∃ keyword ∈ ["interface", "enum", "type"], ∃ rest,
    d.text = d.comment.text 0 ++ ("export " ++ keyword ++ " " ++ d.name ++ rest)

theorem Declaration.heads (d : Declaration) : d.Heads := by
  obtain ⟨name, comment, body⟩ := d
  cases body with
  | interface members index =>
    refine ⟨"interface", by decide, " " ++ (TypeExpr.record members index).write 0, congrArg (comment.text 0 ++ ·) ?_⟩
    rw [← String.append_assoc]
    rfl
  | enumeration members =>
    refine ⟨"enum", by decide, " \x7b\n" ++ ("\n".intercalate (members.map fun m =>
      Text.indent 1 ++ m.1 ++ " = " ++ TypeExpr.literalText m.2 ++ ",") ++ "\n\x7d"), congrArg (comment.text 0 ++ ·) ?_⟩
    rw [← String.append_assoc, ← String.append_assoc]
    rfl
  | alias_ type =>
    refine ⟨"type", by decide, " = " ++ (type.write 0 ++ ";"), congrArg (comment.text 0 ++ ·) ?_⟩
    rw [← String.append_assoc, ← String.append_assoc]
    rfl

-- The text of a document is made of the header, a line for each import, the preamble and, each
-- of them once, the texts of the declarations.
structure DeclarationDocument.Prints (d : DeclarationDocument) (style : DeclarationStyle) : Prop where
  parts : ∃ header imports preamble body, d.text style = header ++ imports ++ preamble ++ body ∧
    Header style.header header ∧ Paragraph (d.imports.map fun i => importLine i.2 i.1) imports ∧
    Paragraph style.preamble preamble ∧ Blocks (d.declarations.map Declaration.text) body
  heads : ∀ declaration ∈ d.declarations, declaration.Heads

theorem DeclarationDocument.prints (d : DeclarationDocument) (style : DeclarationStyle) : d.Prints style := by
  refine ⟨⟨_, _, _, _, String.append_assoc, ?_, paragraph_setOff _, paragraph_setOff _, blocks_intercalate _⟩,
    fun declaration _ => declaration.heads⟩
  cases style.header
  · exact .none
  · exact .comment

end TwinShape
