import TwinShape.Declaration.Comment
import TwinShape.Proofs.Declaration.Tokens

namespace TwinShape
open Script

def closes : List Char → Bool
  | '*' :: '/' :: _ => true
  | _ :: rest => closes rest
  | [] => false

-- A comment goes on after such a text, whatever comes before it.
structure Unclosed (cs : List Char) : Prop where
  open_ : closes cs = false
  unslashed : cs.head? ≠ some '/'

theorem closes_cons (c : Char) (rest : List Char) :
    closes (c :: rest) = ((c == '*' && rest.head? == some '/') || closes rest) := by
  by_cases ends : c = '*' ∧ rest.head? = some '/'
  · obtain ⟨rfl, slash⟩ := ends
    cases rest with
    | nil => cases slash
    | cons d rest =>
      cases slash
      rfl
  · have inert : (c == '*' && rest.head? == some '/') = false := by
      rw [Bool.eq_false_iff]
      intro both
      rw [Bool.and_eq_true, beq_iff_eq, beq_iff_eq] at both
      exact ends both
    rw [inert, Bool.false_or]
    refine closes.eq_2 c rest fun more star same => ends ?_
    rw [same]
    exact ⟨star, rfl⟩

theorem closes_append (first : closes a = false) (second : Unclosed b) : closes (a ++ b) = false := by
  induction a with
  | nil => exact second.open_
  | cons c a ih =>
    rw [closes_cons, Bool.or_eq_false_iff] at first
    rw [List.cons_append, closes_cons, ih first.2, Bool.or_false]
    cases a with
    | nil =>
      rw [List.nil_append]
      rw [beq_eq_false_iff_ne.2 second.unslashed, Bool.and_false]
    | cons d a => exact first.1

namespace Unclosed

theorem append (first : Unclosed a) (second : Unclosed b) : Unclosed (a ++ b) := by
  refine ⟨closes_append first.open_ second, ?_⟩
  cases a with
  | nil => exact second.unslashed
  | cons c a => exact first.unslashed

theorem blanks (n : Nat) : Unclosed (List.replicate n ' ') := by
  induction n with
  | zero => exact ⟨rfl, nofun⟩
  | succ n ih => exact append (a := [' ']) ⟨rfl, by decide⟩ ih

theorem indent (depth : Nat) : Unclosed (Text.indent depth).toList := by
  unfold Text.indent
  rw [String.toList_ofList]
  exact blanks _

end Unclosed

namespace DocComment

theorem head?_guard (cs : List Char) : (guard cs).head? = cs.head? := by
  fun_cases guard cs <;> rfl

theorem closes_guard (cs : List Char) : closes (guard cs) = false := by
  fun_induction guard cs with
  | case1 rest ih =>
    rw [closes_cons, closes_cons, closes_cons, ih]
    rfl
  | case2 c rest inert ih =>
    rw [closes_cons, ih, Bool.or_false, head?_guard, Bool.eq_false_iff]
    intro both
    rw [Bool.and_eq_true, beq_iff_eq, beq_iff_eq] at both
    obtain ⟨rfl, slash⟩ := both
    cases rest with
    | nil => cases slash
    | cons d rest =>
      cases slash
      exact inert rest rfl rfl
  | case3 => rfl

theorem unclosed_line (depth : Nat) (line : String) : Unclosed (lineText (Text.indent depth) line).toList := by
  unfold lineText
  split
  · rw [String.toList_append]
    exact (Unclosed.indent depth).append ⟨rfl, by decide⟩
  · simp only [String.toList_append, String.toList_ofList]
    have star : Unclosed (" * ".toList ++ guard line.toList) := by
      refine ⟨?_, nofun⟩
      change closes (' ' :: '*' :: ' ' :: guard line.toList) = false
      rw [closes_cons, closes_cons, closes_cons, closes_guard]
      rfl
    rw [List.append_assoc (Text.indent depth).toList]
    exact ((Unclosed.indent depth).append star).append ⟨rfl, by decide⟩

theorem unclosed_lines (depth : Nat) (lines : DocComment) :
    Unclosed (String.join (lines.map (lineText (Text.indent depth)))).toList := by
  induction lines with
  | nil => exact ⟨rfl, nofun⟩
  | cons line rest ih =>
    rw [List.map_cons, String.join_cons, String.toList_append]
    exact (unclosed_line depth line).append ih

def body (depth : Nat) (lines : DocComment) : List Char :=
  '\n' :: (String.join (lines.map (lineText (Text.indent depth)))).toList ++ ((Text.indent depth).toList ++ [' '])

theorem unclosed_body (depth : Nat) (lines : DocComment) : Unclosed (body depth lines) := by
  have last : Unclosed ((Text.indent depth).toList ++ [' ']) := (Unclosed.indent depth).append ⟨rfl, by decide⟩
  exact Unclosed.append (a := ['\n']) ⟨rfl, by decide⟩ ((unclosed_lines depth lines).append last)

theorem toList_text (depth : Nat) {lines : DocComment} (some_ : lines ≠ []) :
    (text depth lines).toList =
      ((Text.indent depth).toList ++ "/**".toList ++ body depth lines) ++ '*' :: '/' :: ['\n'] := by
  rw [text, if_neg (by rwa [List.isEmpty_iff])]
  simp only [String.toList_append, body, List.append_assoc, List.cons_append]
  rfl

end DocComment

theorem comment?_open (open_ : closes cs = false) (rest : List Char) :
    comment? (cs ++ '*' :: '/' :: rest) = some rest := by
  induction cs with
  | nil => rfl
  | cons c cs ih =>
    rw [closes_cons, Bool.or_eq_false_iff] at open_
    rw [List.cons_append, comment?.eq_2, ih open_.2]
    intro more star same
    cases cs with
    | nil => cases same
    | cons d cs =>
      cases same
      subst star
      cases open_.1

namespace Script.Letters
variable {l : Letters}

theorem reads_blanks (n : Nat) : l.Reads (List.replicate n ' ') [] := by
  induction n with
  | zero => exact .nil
  | succ n ih => exact (reads_blank (c := ' ') rfl).append ih

theorem reads_indent (depth : Nat) : l.Reads (Text.indent depth).toList [] := by
  unfold Text.indent
  rw [String.toList_ofList]
  exact reads_blanks _

-- A documentation comment leaves no token.
theorem reads_doc (depth : Nat) (lines : DocComment) : l.Reads (DocComment.text depth lines).toList [] := by
  by_cases silent : lines = []
  · rw [silent]
    exact .nil
  · have inner : Unclosed ('*' :: DocComment.body depth lines) :=
      Unclosed.append (a := ['*']) ⟨rfl, by decide⟩ (DocComment.unclosed_body depth lines)
    have closed : ∀ rest, comment? (('*' :: DocComment.body depth lines) ++ ['*', '/'] ++ rest) = some rest := by
      intro rest
      rw [List.append_assoc]
      exact comment?_open inner.open_ rest
    have comment := reads_comment (l := l) closed
    have whole := ((reads_indent (l := l) depth).append comment).append (reads_blank (c := '\n') rfl)
    rw [DocComment.toList_text depth silent]
    simp only [List.append_assoc, List.cons_append] at whole ⊢
    exact whole

end Script.Letters
end TwinShape
