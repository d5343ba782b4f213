import TwinShape.Proofs.Declaration.Comments
import TwinShape.Proofs.Declaration.Grammar
import TwinShape.Proofs.Declaration.Numerals
import TwinShape.Proofs.Declaration.Quoting

namespace TwinShape
open Script

def Literal.operand : Literal → Operand
  | .string s => .text (units s.toList)
  | .int i => .numeral (toString i.value)
  | .float x => .numeral (FloatText.plain.write x)
  | .null => .keyword "null"
  | .bool true => .keyword "true"
  | .bool false => .keyword "false"

def Unbroken (s : String) : Prop := ∀ c ∈ s.toList, isLineEnd c = false

namespace TypeExpr

mutual
def meaning : TypeExpr → List Operand
  | .keyword word => [.keyword word]
  | .named name => [.named name]
  | .literal value => [value.operand]
  | .verbatim _ => []
  | .array item _ => [.array item.meaning]
  | .alternatives options => meanings options
  | .record members index => [.record (entries members) (indexMeaning index)]

def meanings : List TypeExpr → List Operand
  | [] => []
  | t :: rest => t.meaning ++ meanings rest

def entries : List (Member TypeExpr) → List (Entry (List Operand))
  | [] => []
  | ⟨_, key, optional, type⟩ :: rest => ⟨units key.toList, optional, type.meaning⟩ :: entries rest

def indexMeaning : Option TypeExpr → Option (List Operand)
  | none => none
  | some t => some t.meaning
end

-- Whether the text of a type is a single operand.
def isLone : TypeExpr → Bool
  | .alternatives [t] => t.isLone
  | .alternatives _ | .verbatim _ => false
  | _ => true

end TypeExpr

namespace Script.Letters

-- A name that refers to a type wherever it stands.
structure IsName (l : Letters) (name : String) : Prop where
  word : l.isWord name.toList = true
  defined : name ∉ predefined
  free : name ∉ reserved

def read? (l : Letters) (text : String) : Option (List Operand) := (l.lex text.toList).bind typeOf?

def Spells (l : Letters) (text : String) (us : List Operand) : Prop := ∃ ts, l.Lexes text.toList ts ∧ IsType ts us

def SpellsOne (l : Letters) (text : String) (us : List Operand) : Prop := ∃ ts, l.Lexes text.toList ts ∧ IsOperand ts us

variable {l : Letters}

theorem SpellsOne.spells (spells : l.SpellsOne text us) : l.Spells text us := by
  obtain ⟨ts, lexes, operand⟩ := spells
  exact ⟨ts, lexes, .one operand⟩

theorem Spells.read?_eq (spells : l.Spells text us) : l.read? text = some us := by
  obtain ⟨ts, lexes, type⟩ := spells
  unfold read?
  rw [lexes.lex_eq]
  exact type.typeOf?_eq

theorem spellsOne_word (word : l.isWord w.toList = true)
    (read : ∀ n rest, readPrimary (readType n) (.word w :: rest) = some (us, rest))
    (some_ : us ≠ []) : l.SpellsOne w us := by
  refine ⟨[.word w], ?_, isOperand_of_primary some_ fun n rest _ => read n rest⟩
  have lexes := lexes_word word
  rwa [String.ofList_toList] at lexes

theorem isWord_ascii (ascii : TypeExpr.isIdentifier w = true) : l.isWord w.toList = true := by
  unfold TypeExpr.isIdentifier at ascii
  unfold isWord
  cases chars : w.toList with
  | nil =>
    rw [chars] at ascii
    cases ascii
  | cons c rest =>
    rw [chars] at ascii
    obtain ⟨first, further⟩ := Bool.and_eq_true_iff.1 ascii
    refine Bool.and_eq_true_iff.2 ⟨Bool.or_eq_true_iff.2 (.inl first), List.all_eq_true.2 fun d member => ?_⟩
    exact Bool.or_eq_true_iff.2 (.inl (List.all_eq_true.1 further d member))

theorem spellsOne_keyword (known : w ∈ predefined) : l.SpellsOne w [.keyword w] := by
  have words : ∀ w ∈ predefined, TypeExpr.isIdentifier w = true := by decide
  refine spellsOne_word (isWord_ascii (words w known)) (fun n rest => ?_) (List.cons_ne_nil _ _)
  rw [readPrimary, if_pos known]

theorem spellsOne_named (name : l.IsName w) : l.SpellsOne w [.named w] := by
  refine spellsOne_word name.word (fun n rest => ?_) (List.cons_ne_nil _ _)
  rw [readPrimary, if_neg name.defined, if_neg name.free]

theorem spellsOne_number (numeral : isNumeral body = true) (negative : Bool)
    (text : t.toList = (if negative then ['-'] else []) ++ body) : l.SpellsOne t [.numeral t] := by
  have digits := lexes_numeral (l := l) numeral
  cases negative with
  | false =>
    rw [if_neg (by decide), List.nil_append] at text
    have same : t = String.ofList body := by rw [← text, String.ofList_toList]
    refine ⟨[.numeral t], ?_, isOperand_of_primary (List.cons_ne_nil _ _) fun n rest _ => rfl⟩
    rw [text, same]
    exact digits
  | true =>
    rw [if_pos rfl] at text
    have same : t = "-" ++ String.ofList body := by
      have own : (String.ofList body).toList = body := String.toList_ofList
      apply String.toList_injective
      rw [text, String.toList_append, own]
      rfl
    refine ⟨[.minus, .numeral (String.ofList body)], ?_, isOperand_of_primary (List.cons_ne_nil _ _) fun n rest _ => ?_⟩
    · rw [text]
      exact (reads_sign rfl).append_lexes digits
    · rw [same]
      rfl

theorem reads_quote (unbroken : Unbroken s) : l.Reads (TypeExpr.quote s).toList [.text (units s.toList)] := by
  refine reads_quoted ((TypeExpr.denotes_quote s).2 unbroken) ?_
  rw [TypeExpr.toList_quote]
  rfl

theorem spellsOne_literal {value : Literal} (unbroken : ∀ s, value = .string s → Unbroken s) :
    l.SpellsOne (TypeExpr.literalText value) [value.operand] := by
  cases value with
  | string s =>
    exact ⟨[.text (units s.toList)], (reads_quote (unbroken s rfl)).lexes,
      isOperand_of_primary (List.cons_ne_nil _ _) fun n rest _ => rfl⟩
  | int i =>
    obtain ⟨body, numeral, text⟩ := numeral_toString i.value
    refine spellsOne_number numeral (decide (i.value < 0)) ?_
    simp only [decide_eq_true_eq]
    exact text
  | float x =>
    obtain ⟨body, numeral, text⟩ := numeral_write x
    exact spellsOne_number numeral x.negative text
  | null => exact spellsOne_keyword (by decide)
  | bool b => cases b <;> exact spellsOne_keyword (by decide)

theorem reads_brackets : l.Reads ['[', ']'] [.openBracket, .closeBracket] :=
  (reads_sign (c := '[') rfl).append (reads_sign (c := ']') rfl)

theorem SpellsOne.array (spells : l.SpellsOne text us) : l.SpellsOne (text ++ "[]") [.array us] := by
  obtain ⟨ts, lexes, operand⟩ := spells
  refine ⟨_, ?_, operand.array⟩
  rw [String.toList_append]
  exact (lexes.append_reads reads_brackets (ends_sign (t := .openBracket) rfl _) (List.cons_ne_nil _ _)).lexes

theorem Spells.grouped_array (spells : l.Spells text us) : l.SpellsOne ("(" ++ text ++ ")[]") [.array us] := by
  obtain ⟨ts, lexes, type⟩ := spells
  refine ⟨_, ?_, type.grouped.array⟩
  have inner := lexes.append_reads (reads_sign (c := ')') rfl) (ends_sign (t := .closeParen) rfl _) (List.cons_ne_nil _ _)
  have whole := ((reads_sign (l := l) (c := '(') rfl).append inner).append reads_brackets
  have same : ("(" ++ text ++ ")[]").toList = (['('] ++ (text.toList ++ [')'])) ++ ['[', ']'] := by
    simp only [String.toList_append, List.append_assoc]
    rfl
  rw [same]
  simpa using whole.lexes

theorem reads_key (unbroken : Unbroken key) :
    (∃ t, key? t = some (units key.toList) ∧ l.Lexes (TypeExpr.keyText key).toList [t]) := by
  unfold TypeExpr.keyText
  cases plain : TypeExpr.isIdentifier key with
  | true =>
    refine ⟨.word key, rfl, ?_⟩
    have lexes := lexes_word (l := l) (isWord_ascii plain)
    rwa [String.ofList_toList] at lexes
  | false => exact ⟨.text (units key.toList), rfl, (reads_quote unbroken).lexes⟩

theorem reads_member {m : Member TypeExpr} (unbroken : Unbroken m.key) (spells : l.Spells text us) (depth : Nat) :
    ∃ t ts, key? t = some (units m.key.toList) ∧ IsType ts us ∧
      l.Reads ('\n' :: (m.comment.text depth ++ Text.indent depth ++ TypeExpr.keyText m.key ++ (bif m.optional then "?" else "") ++
        ": " ++ text ++ ";").toList) (t :: (if m.optional then [.question] else []) ++ .colon :: ts ++ [.semicolon]) := by
  obtain ⟨t, known, key⟩ := reads_key (l := l) unbroken
  obtain ⟨ts, lexes, type⟩ := spells
  refine ⟨t, ts, known, type, ?_⟩
  have before := (reads_blank (l := l) (c := '\n') rfl).append ((reads_doc depth m.comment).append (reads_indent depth))
  have colon : l.Reads [':', ' '] [.colon] := (reads_sign rfl).append (reads_blank rfl)
  have end_ := lexes.append_reads (reads_sign (c := ';') rfl) (ends_sign (t := .semicolon) rfl _) (List.cons_ne_nil _ _)
  cases optional : m.optional with
  | true =>
    have mark := (reads_sign (l := l) (c := '?') rfl).append colon
    have line := (before.append (key.append_reads mark (ends_sign (t := .question) rfl _) (List.cons_ne_nil _ _))).append end_
    simpa using line
  | false =>
    have line := (before.append (key.append_reads colon (ends_sign (t := .colon) rfl _) (List.cons_ne_nil _ _))).append end_
    simpa using line

theorem reads_index (spells : l.Spells text us) (depth : Nat) : ∃ ts, IsType ts us ∧
    l.Reads ('\n' :: (Text.indent depth ++ "[key: string]: " ++ text ++ ";").toList)
      ([.openBracket, .word "key", .colon, .word "string", .closeBracket, .colon] ++ ts ++ [.semicolon]) := by
  obtain ⟨ts, lexes, type⟩ := spells
  refine ⟨ts, type, ?_⟩
  have before := (reads_blank (l := l) (c := '\n') rfl).append (reads_indent depth)
  have end_ := lexes.append_reads (reads_sign (c := ';') rfl) (ends_sign (t := .semicolon) rfl _) (List.cons_ne_nil _ _)
  have colon : l.Reads [':', ' '] [.colon] := (reads_sign rfl).append (reads_blank rfl)
  have key := (lexes_word (l := l) (isWord_ascii (w := "key") rfl)).append_reads colon (ends_sign (t := .colon) rfl _)
    (List.cons_ne_nil _ _)
  have close := (reads_sign (l := l) (c := ']') rfl).append colon
  have string := (lexes_word (l := l) (isWord_ascii (w := "string") rfl)).append_reads close (ends_sign (t := .closeBracket) rfl _)
    (List.cons_ne_nil _ _)
  have line := (before.append ((reads_sign (l := l) (c := '[') rfl).append (key.append string))).append end_
  simpa using line

-- The last operand of a text stands behind a bar.
def SpellsMany (l : Letters) (text : String) (us : List Operand) : Prop :=
  ∃ a b ua ub, l.Lexes text.toList (a ++ .bar :: b) ∧ us = ua ++ ub ∧ IsType a ua ∧ IsOperand b ub

theorem Spells.or_many (first : l.Spells text us) (second : l.Spells text' vs) :
    l.SpellsMany (text ++ " | " ++ text') (us ++ vs) := by
  obtain ⟨ts, lexes, type⟩ := first
  obtain ⟨ts', lexes', type'⟩ := second
  have bar : l.Reads [' ', '|', ' '] [.bar] :=
    (reads_blank rfl).append ((reads_sign (c := '|') rfl).append (reads_blank rfl))
  have whole := (lexes.append_reads bar (ends_blank rfl _) (List.cons_ne_nil _ _)).append_lexes lexes'
  have text : (text ++ " | " ++ text').toList = (text.toList ++ [' ', '|', ' ']) ++ text'.toList := by
    rw [String.toList_append, String.toList_append]
    rfl
  unfold SpellsMany
  rw [text]
  rcases type'.last with operand | ⟨a, b, ua, ub, rfl, rfl, before, operand⟩
  · exact ⟨ts, ts', us, vs, by simpa using whole, rfl, type, operand⟩
  · exact ⟨ts ++ .bar :: a, b, us ++ ua, ub, by simpa using whole, (List.append_assoc _ _ _).symm, type.append before, operand⟩

theorem SpellsMany.spells (many : l.SpellsMany text us) : l.Spells text us := by
  obtain ⟨a, b, ua, ub, lexes, rfl, before, operand⟩ := many
  exact ⟨_, lexes, before.append (.one operand)⟩

theorem SpellsMany.brackets (many : l.SpellsMany text us) :
    ∃ vs item, vs ≠ [] ∧ l.read? (text ++ "[]") = some (vs ++ [.array item]) := by
  obtain ⟨a, b, ua, ub, lexes, rfl, before, operand⟩ := many
  refine ⟨ua, ub, before.some_, Spells.read?_eq ⟨_, ?_, before.append (.one operand.array)⟩⟩
  have whole := lexes.append_reads reads_brackets (ends_sign (t := .openBracket) rfl _) (List.cons_ne_nil _ _)
  rw [String.toList_append]
  simpa using whole.lexes

end Script.Letters

def below (lines : List String) : List Char := lines.flatMap fun line => '\n' :: line.toList

theorem toList_intercalate_lines {lines : List String} (some_ : lines ≠ []) :
    '\n' :: ("\n".intercalate lines).toList = below lines := by
  unfold below
  induction lines with
  | nil => exact absurd rfl some_
  | cons line rest ih =>
    cases rest with
    | nil =>
      rw [String.intercalate_singleton]
      exact (List.append_nil _).symm
    | cons next rest =>
      rw [String.intercalate_cons_cons, List.flatMap_cons, ← ih (List.cons_ne_nil _ _)]
      simp only [String.toList_append, List.append_assoc, List.cons_append]
      rfl

-- What can be said: the names are names, no line ends in a string, and brackets bind to whole items.
inductive TypeExpr.Sound (l : Letters) : TypeExpr → Prop
  | keyword (known : word ∈ predefined) : Sound l (.keyword word)
  | named (name : l.IsName identifier) : Sound l (.named identifier)
  | literal (unbroken : ∀ s, value = .string s → Unbroken s) : Sound l (.literal value)
  | array (inner : Sound l item) (whole : grouped = true ∨ item.isLone = true) : Sound l (.array item grouped)
  | alternatives (some_ : options ≠ []) (each : ∀ o ∈ options, Sound l o) : Sound l (.alternatives options)
  | record (keys : ∀ m ∈ members, Unbroken m.key) (each : ∀ m ∈ members, Sound l m.type) (further : ∀ t, index = some t → Sound l t) :
      Sound l (.record members index)

namespace TypeExpr
variable {l : Letters} {depth : Nat} {members : List (Member TypeExpr)} {index : Option TypeExpr}

theorem entries_read (each : ∀ m ∈ members, Unbroken m.key ∧ l.Spells (m.type.write (depth + 1)) m.type.meaning)
    (further : ∀ t, index = some t → l.Spells (t.write (depth + 1)) t.meaning) :
    ∃ ts, l.Reads (below (writeMembers depth members ++ writeIndex depth index)) ts ∧
      IsEntries ts (entries members) (indexMeaning index) := by
  induction members with
  | nil =>
    cases index with
    | none => exact ⟨[], .nil, .empty⟩
    | some t =>
      obtain ⟨ts, type, reads⟩ := Letters.reads_index (further t rfl) (depth + 1)
      refine ⟨_, ?_, .signature "key" type⟩
      change l.Reads ('\n' :: _ ++ []) _
      rw [List.append_nil]
      exact reads
  | cons m rest ih =>
    obtain ⟨unbroken, spells⟩ := each m List.mem_cons_self
    obtain ⟨ts', later, inner⟩ := ih fun m' member => each m' (List.mem_cons_of_mem _ member)
    obtain ⟨t, ts, known, type, reads⟩ := Letters.reads_member unbroken spells (depth + 1)
    refine ⟨_, reads.append later, ?_⟩
    rw [List.append_assoc]
    exact .cons known m.optional type inner

theorem record_spells (each : ∀ m ∈ members, Unbroken m.key ∧ l.Spells (m.type.write (depth + 1)) m.type.meaning)
    (further : ∀ t, index = some t → l.Spells (t.write (depth + 1)) t.meaning) :
    l.SpellsOne ((record members index).write depth) [.record (entries members) (indexMeaning index)] := by
  obtain ⟨ts, lines, inner⟩ := entries_read each further
  refine ⟨_, ?_, inner.record⟩
  have open_ := Letters.reads_sign (l := l) (c := '\x7b') rfl
  have close := Letters.reads_sign (l := l) (c := '\x7d') rfl
  rw [write]
  split
  · rename_i none_
    rw [none_] at lines
    exact ((open_.append lines).append close).lexes
  · rename_i none_
    have end_ := ((Letters.reads_blank (l := l) (c := '\n') rfl).append (Letters.reads_indent depth)).append close
    have whole := (open_.append lines).append end_
    rw [← toList_intercalate_lines fun same => none_ same] at whole
    simpa using whole.lexes

theorem options_spell (each : ∀ o ∈ options, l.Spells (o.write depth) o.meaning) (some_ : options ≠ []) :
    l.Spells (" | ".intercalate (writeOptions depth options)) (meanings options) := by
  induction options with
  | nil => exact absurd rfl some_
  | cons o rest ih =>
    have first := each o List.mem_cons_self
    cases rest with
    | nil =>
      rw [writeOptions, writeOptions, String.intercalate_singleton, meanings, meanings, List.append_nil]
      exact first
    | cons next rest =>
      rw [writeOptions, writeOptions, String.intercalate_cons_cons, meanings]
      exact (first.or_many (ih (fun m member => each m (List.mem_cons_of_mem _ member)) (List.cons_ne_nil _ _))).spells

-- The text of a sound type spells what the type means, at every depth; that of a lone one as
-- an operand.
theorem Sound.spells {type : TypeExpr} (sound : type.Sound l) (depth : Nat) :
    l.Spells (type.write depth) type.meaning ∧ (type.isLone = true → l.SpellsOne (type.write depth) type.meaning) := by
  have one : ∀ {text us} {P : Prop}, l.SpellsOne text us → l.Spells text us ∧ (P → l.SpellsOne text us) :=
    fun spells => ⟨spells.spells, fun _ => spells⟩
  induction sound generalizing depth with
  | keyword known =>
    rw [write]
    exact one (Letters.spellsOne_keyword known)
  | named name =>
    rw [write]
    exact one (Letters.spellsOne_named name)
  | literal unbroken =>
    rw [write]
    exact one (Letters.spellsOne_literal unbroken)
  | @array item grouped _ whole ih =>
    rw [write]
    cases grouped with
    | true => exact one (ih depth).1.grouped_array
    | false => exact one ((ih depth).2 (whole.resolve_left Bool.false_ne_true)).array
  | @alternatives options some_ each ih =>
    rw [write]
    refine ⟨options_spell (fun o member => (ih o member depth).1) some_, fun lone => ?_⟩
    rcases options with - | ⟨t, - | ⟨_, _⟩⟩
    · exact absurd rfl some_
    · rw [writeOptions, writeOptions, String.intercalate_singleton, meaning, meanings, meanings, List.append_nil]
      exact (ih t List.mem_cons_self depth).2 lone
    · cases lone
  | record keys _ _ ih ih' =>
    exact one (record_spells (fun m member => ⟨keys m member, (ih m member (depth + 1)).1⟩) fun t same => (ih' t same (depth + 1)).1)

theorem Sound.spells_many {type : TypeExpr} (sound : type.Sound l) (several : type.isLone = false) (depth : Nat) :
    l.SpellsMany (type.write depth) type.meaning := by
  induction sound with
  | @alternatives options some_ each ih =>
    rw [write]
    rcases options with - | ⟨o, - | ⟨next, rest⟩⟩
    · exact absurd rfl some_
    · rw [writeOptions, writeOptions, String.intercalate_singleton, meaning, meanings, meanings, List.append_nil]
      exact ih o List.mem_cons_self several
    · have spells : ∀ o' ∈ o :: next :: rest, l.Spells (o'.write depth) o'.meaning := fun o' member => ((each o' member).spells depth).1
      have further := options_spell (fun o' member => spells o' (List.mem_cons_of_mem _ member)) (List.cons_ne_nil next rest)
      rw [writeOptions, writeOptions, String.intercalate_cons_cons, meaning, meanings]
      exact (spells o List.mem_cons_self).or_many further
  | keyword | named | literal | array | record => cases several

-- An array is read as one of its whole item exactly if that is in brackets or is a single operand.
theorem read_array_iff {item : TypeExpr} (sound : item.Sound l) (grouped : Bool) (depth : Nat) :
    (∃ us, l.read? ((array item grouped).write depth) = some [.array us]) ↔ grouped = true ∨ item.isLone = true := by
  constructor
  · rintro ⟨us, read⟩
    cases grouped with
    | true => exact .inl rfl
    | false =>
      refine .inr (Bool.not_eq_false _ ▸ fun several => ?_)
      obtain ⟨vs, last, some_, misread⟩ := (sound.spells_many several depth).brackets
      rw [write] at read
      have same : vs ++ [.array last] = [] ++ [.array us] := Option.some.inj (misread.symm.trans read)
      exact some_ (List.append_inj' same rfl).1
  · intro whole
    exact ⟨_, ((Sound.array sound whole).spells depth).1.read?_eq⟩

end TypeExpr
end TwinShape
