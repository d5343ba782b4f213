import TwinShape.Proofs.Declaration.Comments

namespace TwinShape

-- The sign that ends a comment stands at one place only, behind `inside` and before `rest`.
def ClosedOnce (inside rest whole : List Char) : Prop :=
  ∀ before after, whole = before ++ '*' :: '/' :: after ↔ before = inside ∧ after = rest

theorem closes_sign (before after : List Char) : closes (before ++ '*' :: '/' :: after) = true := by
  induction before with
  | nil => rfl
  | cons c before ih => rw [List.cons_append, closes_cons, ih, Bool.or_true]

-- Neither the text before the sign nor the sign's own slash begins another one.
theorem closedOnce (before : closes inside = false) (after : closes ('/' :: rest) = false) :
    ClosedOnce inside rest (inside ++ '*' :: '/' :: rest) := by
  induction inside with
  | nil =>
    intro start stop
    constructor
    · intro same
      cases start with
      | nil =>
        cases same
        exact ⟨rfl, rfl⟩
      | cons c start =>
        rw [List.nil_append, List.cons_append, List.cons.injEq] at same
        rw [same.2, closes_sign] at after
        cases after
    · rintro ⟨rfl, rfl⟩
      rfl
  | cons c inside ih =>
    rw [closes_cons, Bool.or_eq_false_iff] at before
    intro start stop
    constructor
    · intro same
      cases start with
      | nil =>
        -- the sign would begin with this very character
        cases inside with
        | nil => cases same
        | cons d inside =>
          cases same
          cases before.1
      | cons d start =>
        rw [List.cons_append, List.cons_append, List.cons.injEq] at same
        obtain ⟨rfl, rfl⟩ := (ih before.2 start stop).1 same.2
        exact ⟨by rw [same.1], rfl⟩
    · rintro ⟨rfl, rfl⟩
      rfl

namespace Text

theorem linesFrom_eq_nil {line cs : List Char} : linesFrom line cs = [] ↔ line = [] ∧ cs = [] := by
  fun_induction linesFrom line cs with
  | case1 line blank =>
    rw [List.isEmpty_iff] at blank
    exact iff_of_true rfl ⟨blank, rfl⟩
  | case2 line filled =>
    rw [List.isEmpty_iff] at filled
    exact iff_of_false (List.cons_ne_nil _ _) fun both => filled both.1
  | case3 => exact iff_of_false (List.cons_ne_nil _ _) fun both => nomatch both.2
  | case4 line c rest ordinary ih =>
    rw [ih]
    exact iff_of_false (fun both => nomatch both.1) fun both => nomatch both.2

theorem lines_eq_nil {text : String} : lines text = [] ↔ text = "" := by
  rw [lines, linesFrom_eq_nil, String.toList_eq_nil_iff]
  exact and_iff_right rfl

end Text

structure Annotations.Silent (a : Annotations) (default : Option Json) : Prop where
  title : ∀ text ∈ a.title, text = ""
  description : ∀ text ∈ a.description, text = ""
  comment : ∀ text ∈ a.comment, text = ""
  default_ : default = none
  deprecated : a.deprecated = none

namespace DocComment

theorem paragraph_eq_nil {lines : DocComment} {text : Option String} :
    paragraph lines text = [] ↔ lines = [] ∧ ∀ t ∈ text, t = "" := by
  cases text with
  | none => exact (and_iff_left nofun).symm
  | some text =>
    rw [paragraph, List.append_eq_nil_iff, Text.lines_eq_nil]
    refine and_congr ?_ ⟨fun empty t same => ?_, fun empty => empty text rfl⟩
    · cases lines with
      | nil => exact iff_of_true rfl rfl
      | cons line rest => exact iff_of_false (List.cons_ne_nil _ _) (List.cons_ne_nil _ _)
    · cases same
      exact empty

theorem ofAnnotations_eq_nil {a : Annotations} {default : Option Json} :
    ofAnnotations a default = [] ↔ a.Silent default := by
  unfold ofAnnotations
  simp only [List.append_eq_nil_iff, List.map_eq_nil_iff, Option.toList_eq_nil_iff, paragraph_eq_nil, true_and]
  constructor
  · rintro ⟨⟨⟨⟨title, description⟩, comment⟩, default_⟩, deprecated⟩
    exact ⟨title, description, comment, default_, deprecated⟩
  · rintro ⟨title, description, comment, default_, deprecated⟩
    exact ⟨⟨⟨⟨title, description⟩, comment⟩, default_⟩, deprecated⟩

-- One comment on lines of its own, whatever stands in it.
structure Encloses (depth : Nat) (text : String) : Prop where
  opened : ((Text.indent depth).toList ++ "/**".toList) <+: text.toList
  closed : ∃ inside, ClosedOnce inside ['\n'] text.toList

theorem text_eq_empty (depth : Nat) {lines : DocComment} : text depth lines = "" ↔ lines = [] := by
  cases lines with
  | nil => exact iff_of_true rfl rfl
  | cons line rest =>
    refine iff_of_false (fun unwritten => ?_) (List.cons_ne_nil _ _)
    have whole := toList_text depth (List.cons_ne_nil line rest)
    rw [unwritten] at whole
    exact List.append_ne_nil_of_right_ne_nil _ (List.cons_ne_nil _ _) whole.symm

theorem closes_indent (depth : Nat) (rest : List Char) : closes ((Text.indent depth).toList ++ rest) = closes rest := by
  rw [Text.indent, String.toList_ofList]
  induction 2 * depth with
  | zero => rfl
  | succ n ih =>
    rw [List.replicate_succ, List.cons_append, closes_cons, ih]
    rfl

theorem encloses (depth : Nat) {lines : DocComment} (some_ : lines ≠ []) : Encloses depth (text depth lines) := by
  have inside : closes ((Text.indent depth).toList ++ "/**".toList ++ body depth lines) = false := by
    rw [List.append_assoc, closes_indent]
    exact closes_append (by decide) (unclosed_body depth lines)
  have whole := toList_text depth some_
  constructor
  · rw [whole, List.append_assoc]
    exact List.prefix_append _ _
  · rw [whole]
    exact ⟨_, closedOnce inside (by decide)⟩

-- Documentation never leaves its comment: nothing is written if there is nothing to say, and
-- else one comment, which its own last line alone ends.
theorem documentation_enclosed (a : Annotations) (default : Option Json) (depth : Nat) :
    (text depth (ofAnnotations a default) = "" ↔ ofAnnotations a default = []) ∧
    (ofAnnotations a default = [] ↔ a.Silent default) ∧
    (text depth (ofAnnotations a default) = "" ∨ Encloses depth (text depth (ofAnnotations a default))) := by
  refine ⟨text_eq_empty depth, ofAnnotations_eq_nil, ?_⟩
  by_cases silent : ofAnnotations a default = []
  · exact .inl ((text_eq_empty depth).2 silent)
  · exact .inr (encloses depth silent)

-- A note is not broken into lines, yet its signs are guarded all the same.
example : text 0 (ofAnnotations { Annotations.blank with deprecated := some "see **/\n*/" } none) =
    "/**\n * @deprecated see **\\/\n*\\/\n */\n" := by
  decide

end DocComment
end TwinShape
