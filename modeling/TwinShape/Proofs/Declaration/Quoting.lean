import Mathlib
import TwinShape.Declaration.Drafting
import TwinShape.Node.Builder
import TwinShape.Proofs.Declaration.Strings
import TwinShape.Schema.Evaluator

namespace TwinShape
open Script

-- Where a document quotes strings: literals, keys that are no identifiers, and modules.
inductive QuotedAt where
  | literal
  | key
  | module

namespace QuotedAt

def text : QuotedAt → String → String
  | .literal, s => TypeExpr.literalText (.string s)
  | .key, s => TypeExpr.keyText s
  | .module, s => "'" ++ s ++ "'"

-- What comes through. The name of a module is written as it stands.
def keeps : QuotedAt → Char → Bool
  | .literal, c | .key, c => !isLineEnd c
  | .module, c => isPlain c

end QuotedAt

inductive TypeExpr.Quotes : TypeExpr → QuotedAt → String → Prop
  | literal : Quotes (.literal (.string s)) .literal s
  | item (inside : Quotes item place s) : Quotes (.array item grouped) place s
  | option (member : o ∈ options) (inside : Quotes o place s) : Quotes (.alternatives options) place s
  | key (member : m ∈ members) (odd : isIdentifier m.key = false) : Quotes (.record members index) .key m.key
  | member (member : m ∈ members) (inside : Quotes m.type place s) : Quotes (.record members index) place s
  | index (inside : Quotes type place s) : Quotes (.record members (some type)) place s

inductive DeclaredAs.Quotes : DeclaredAs → QuotedAt → String → Prop
  | interface (inside : (TypeExpr.record members index).Quotes place s) : Quotes (.interface members index) place s
  | enumerator (member : (symbol, .string s) ∈ members) : Quotes (.enumeration members) .literal s
  | alias_ (inside : type.Quotes place s) : Quotes (.alias_ type) place s

inductive DeclarationDocument.Quotes (d : DeclarationDocument) : QuotedAt → String → Prop
  | declared (member : declaration ∈ d.declarations) (inside : declaration.body.Quotes place s) : Quotes d place s
  | module (member : (module, names) ∈ d.imports) : Quotes d .module module

def Occurs (part whole : String) : Prop := part.toList <:+: whole.toList

namespace Occurs

theorem self : Occurs part part := List.infix_rfl

theorem before (occurs : Occurs part whole) (more : String) : Occurs part (whole ++ more) := by
  unfold Occurs
  rw [String.toList_append]
  exact occurs.trans (List.prefix_append _ _).isInfix

theorem behind (occurs : Occurs part whole) (more : String) : Occurs part (more ++ whole) := by
  unfold Occurs
  rw [String.toList_append]
  exact occurs.trans (List.suffix_append _ _).isInfix

theorem join (member : whole ∈ texts) (occurs : Occurs part whole) : Occurs part (String.join texts) := by
  obtain ⟨first, last, rfl⟩ := List.append_of_mem member
  rw [String.join_append, String.join_cons]
  exact (occurs.before _).behind _

theorem between (member : whole ∈ texts) (occurs : Occurs part whole) (sign : String) :
    Occurs part (sign.intercalate texts) := by
  induction texts with
  | nil => cases member
  | cons text rest ih =>
    cases rest with
    | nil =>
      cases List.mem_singleton.1 member
      rwa [String.intercalate_singleton]
    | cons next rest =>
      rw [String.intercalate_cons_cons]
      rcases List.mem_cons.1 member with rfl | later
      · exact (occurs.before _).before _
      · exact (ih later).behind _

end Occurs

namespace TypeExpr

theorem mem_writeOptions (depth : Nat) (member : o ∈ options) : o.write depth ∈ writeOptions depth options := by
  induction options with
  | nil => cases member
  | cons first rest ih =>
    rw [writeOptions]
    rcases List.mem_cons.1 member with rfl | later
    · exact List.mem_cons_self
    · exact List.mem_cons_of_mem _ (ih later)

theorem mem_writeMembers (depth : Nat) {members : List (Member TypeExpr)} (member : m ∈ members) :
    ∃ line ∈ writeMembers depth members, Occurs (keyText m.key) line ∧ Occurs (m.type.write (depth + 1)) line := by
  induction members with
  | nil => cases member
  | cons first rest ih =>
    rw [writeMembers]
    rcases List.mem_cons.1 member with rfl | later
    · refine ⟨_, List.mem_cons_self, ?_, ?_⟩
      · exact ((((Occurs.self.behind _).before _).before _).before _).before _
      · exact (Occurs.self.behind _).before _
    · obtain ⟨line, inside, both⟩ := ih later
      exact ⟨line, List.mem_cons_of_mem _ inside, both⟩

theorem occurs_record (inside : line ∈ writeMembers depth members ++ writeIndex depth index)
    (occurs : Occurs part line) :
    Occurs part ((record members index).write depth) := by
  rw [write]
  split
  · rename_i none_
    rw [none_] at inside
    cases inside
  · rename_i lines _
    exact ((((occurs.between inside _).behind _).before _).before _).before _

theorem Quotes.occurs {type : TypeExpr} (quotes : type.Quotes place s) (depth : Nat) :
    Occurs (place.text s) (type.write depth) := by
  induction quotes generalizing depth with
  | literal =>
    rw [write]
    exact .self
  | @item _ _ _ grouped _ ih =>
    rw [write]
    cases grouped
    · exact (ih depth).before _
    · exact ((ih depth).behind _).before _
  | option member _ ih =>
    rw [write]
    exact (ih depth).between (mem_writeOptions depth member) _
  | key member _ =>
    obtain ⟨line, inside, key, -⟩ := mem_writeMembers depth member
    exact occurs_record (List.mem_append_left _ inside) key
  | member member _ ih =>
    obtain ⟨line, inside, -, type⟩ := mem_writeMembers depth member
    exact occurs_record (List.mem_append_left _ inside) ((ih (depth + 1)).trans type)
  | @index type _ _ _ _ ih =>
    have line : Text.indent (depth + 1) ++ "[key: string]: " ++ type.write (depth + 1) ++ ";" ∈ writeIndex depth (some type) :=
      List.mem_cons_self
    exact occurs_record (List.mem_append_right _ line) (((ih (depth + 1)).behind _).before _)

end TypeExpr

theorem occurs_setOff (member : line ∈ lines) (occurs : Occurs part line) : Occurs part (setOff lines) := by
  unfold setOff
  split
  · rename_i none_
    rw [List.isEmpty_iff.1 none_] at member
    cases member
  · exact (Occurs.join (List.mem_map_of_mem (f := (· ++ "\n")) member) (occurs.before _)).before _

theorem Declaration.occurs {d : Declaration} (quotes : d.body.Quotes place s) : Occurs (place.text s) d.text := by
  obtain ⟨name, comment, body⟩ := d
  unfold Declaration.text
  refine Occurs.behind ?_ _
  cases quotes with
  | interface inside => exact (inside.occurs 0).behind _
  | @enumerator symbol _ members member =>
    refine Occurs.before (Occurs.behind ?_ _) _
    exact Occurs.between (List.mem_map_of_mem member) (.before (.behind .self _) _) _
  | alias_ inside => exact ((inside.occurs 0).behind _).before _

theorem DeclarationDocument.Quotes.occurs {d : DeclarationDocument} (quotes : d.Quotes place s)
    (style : DeclarationStyle) :
    Occurs (place.text s) (d.text style) := by
  unfold DeclarationDocument.text
  cases quotes with
  | declared member inside =>
    refine Occurs.before (Occurs.behind ?_ _) _
    exact Occurs.between (List.mem_map_of_mem member) (Declaration.occurs inside) _
  | @module _ names member =>
    refine Occurs.before (Occurs.before (Occurs.before (Occurs.behind ?_ _) _) _) _
    refine occurs_setOff (List.mem_map_of_mem member) ?_
    have line : "import type \x7b " ++ ", ".intercalate names ++ " \x7d from '" ++ s ++ "';" =
        ("import type \x7b " ++ ", ".intercalate names ++ " \x7d from ") ++ ("'" ++ s ++ "'") ++ ";" := by
      apply String.toList_injective
      simp only [String.toList_append, List.append_assoc]
      rfl
    dsimp only
    rw [line]
    exact (Occurs.self.behind _).before _

namespace TypeExpr

theorem toList_quote (s : String) : (quote s).toList = '\'' :: s.toList.flatMap quoteChar ++ ['\''] :=
  String.toList_ofList

-- A quoted text stands for the string if no line ends in it, and for nothing otherwise.
-- A character in which no line ends stands for itself behind its mark.
theorem body?_quoteChar (whole : isLineEnd c = false) (rest : List Char) :
    body? (quoteChar c ++ rest) = (body? rest).map fun (vs, after) => (unitsOfCode c.toNat ++ vs, after) := by
  by_cases mark : c = '\\' ∨ c = '\''
  · rw [quoteChar, if_pos mark]
    exact body?_escaped mark _
  · obtain ⟨slash, quote⟩ := not_or.1 mark
    rw [quoteChar, if_neg mark]
    refine body?_plain ?_ _
    unfold isPlain
    rw [whole, bne_iff_ne.2 quote, bne_iff_ne.2 slash]
    rfl

theorem body?_quoted (s rest : List Char) :
    body? (s.flatMap quoteChar ++ '\'' :: rest) = if s.any isLineEnd then none else some (units s, rest) := by
  induction s with
  | nil => exact body?_ends rest
  | cons c s ih =>
    rw [List.flatMap_cons, List.append_assoc, List.any_cons]
    cases broken : isLineEnd c with
    | true =>
      have own : quoteChar c = [c] := if_neg (by rintro (rfl | rfl) <;> cases broken)
      rw [own]
      exact body?_broken broken _
    | false =>
      rw [body?_quoteChar broken, ih, Bool.false_or]
      split <;> rfl

theorem denotes_quote (s : String) : Denotes (quote s).toList s.toList ↔ ∀ c ∈ s.toList, isLineEnd c = false := by
  have read : ∀ rest, singleQuoted? ((quote s).toList ++ rest) =
      if s.toList.any isLineEnd then none else some (units s.toList, rest) := by
    intro rest
    rw [toList_quote, List.append_assoc]
    exact body?_quoted s.toList rest
  constructor
  · intro denotes c member
    have whole := (read []).symm.trans (denotes [])
    split at whole
    · cases whole
    · rename_i none_
      exact Bool.eq_false_iff.2 fun broken => none_ (List.any_eq_true.2 ⟨c, member, broken⟩)
  · intro whole rest
    rw [read, if_neg]
    rw [List.any_eq_true]
    rintro ⟨c, member, broken⟩
    cases (whole c member).symm.trans broken

theorem quoteChar_inj {a b : List Char} (same : quoteChar c ++ a = quoteChar d ++ b) : c = d ∧ a = b := by
  unfold quoteChar at same
  split at same <;> split at same
  · cases same
    exact ⟨rfl, rfl⟩
  · rename_i mark plain
    cases same
    exact absurd (.inl rfl) plain
  · rename_i plain mark
    cases same
    exact absurd (.inl rfl) plain
  · cases same
    exact ⟨rfl, rfl⟩

theorem quote_injective (same : quote s = quote t) : s = t := by
  have chars : s.toList.flatMap quoteChar = t.toList.flatMap quoteChar := by
    have same := congrArg String.toList same
    rw [toList_quote, toList_quote] at same
    exact List.append_cancel_right (List.cons.inj same).2
  apply String.toList_injective
  generalize s.toList = a, t.toList = b at chars
  induction a generalizing b with
  | nil =>
    cases b with
    | nil => rfl
    | cons d b =>
      rw [List.flatMap_cons] at chars
      have none_ := (List.append_eq_nil_iff.1 chars.symm).1
      unfold quoteChar at none_
      split at none_ <;> cases none_
  | cons c a ih =>
    cases b with
    | nil =>
      rw [List.flatMap_cons] at chars
      have none_ := (List.append_eq_nil_iff.1 chars).1
      unfold quoteChar at none_
      split at none_ <;> cases none_
    | cons d b =>
      rw [List.flatMap_cons, List.flatMap_cons] at chars
      obtain ⟨rfl, rest⟩ := quoteChar_inj chars
      rw [ih b rest]

end TypeExpr

theorem denotes_verbatim (s : String) : Denotes ("'" ++ s ++ "'").toList s.toList ↔
    ∀ c ∈ s.toList, isPlain c = true := by
  have read : ∀ rest, singleQuoted? (("'" ++ s ++ "'").toList ++ rest) = body? (s.toList ++ '\'' :: rest) := by
    intro rest
    rw [String.toList_append, String.toList_append, List.append_assoc]
    rfl
  constructor
  · intro denotes
    obtain ⟨used, same, -, plain⟩ := body?_cases ((read []).symm.trans (denotes []))
    cases List.append_cancel_right same
    exact plain rfl
  · intro plain rest
    rw [read]
    exact body?_of_plain plain rest

theorem TypeExpr.Quotes.odd {type : TypeExpr} (quotes : type.Quotes place s) (key : place = .key) :
    isIdentifier s = false := by
  induction quotes with
  | literal => cases key
  | key _ odd => exact odd
  | item _ ih | option _ _ ih | member _ _ ih | index _ ih => exact ih key

theorem DeclaredAs.Quotes.odd {body : DeclaredAs} (quotes : body.Quotes place s) (key : place = .key) :
    TypeExpr.isIdentifier s = false := by
  cases quotes with
  | enumerator => cases key
  | interface inside => exact inside.odd key
  | alias_ inside => exact inside.odd key

theorem DeclarationDocument.Quotes.text_key {d : DeclarationDocument} (quotes : d.Quotes .key s) :
    QuotedAt.key.text s = TypeExpr.quote s := by
  cases quotes with
  | declared _ inside =>
    change TypeExpr.keyText s = TypeExpr.quote s
    unfold TypeExpr.keyText
    rw [inside.odd rfl]
    rfl

theorem QuotedAt.keeps_iff {place : QuotedAt} (escapes : place = .literal ∨ place = .key) :
    place.keeps c = true ↔ isLineEnd c = false := by
  rcases escapes with rfl | rfl <;> exact iff_of_eq (Bool.not_eq_true' _)

-- What a document quotes stands in it, as one literal that denotes the string if and only if the string
-- is free of what the place does not escape. No two strings are quoted alike at a place.
theorem DeclarationDocument.quotes_denote {d : DeclarationDocument} (quotes : d.Quotes place s)
    (style : DeclarationStyle) :
    Occurs (place.text s) (d.text style) ∧
      (Denotes (place.text s).toList s.toList ↔ ∀ c ∈ s.toList, place.keeps c = true) ∧
      ∀ d' : DeclarationDocument, ∀ t, d'.Quotes place t → place.text t = place.text s → t = s := by
  refine ⟨quotes.occurs style, ?_⟩
  cases place with
  | literal =>
    refine ⟨(TypeExpr.denotes_quote s).trans ?_, fun _ t _ same => TypeExpr.quote_injective same⟩
    exact forall₂_congr fun _ _ => (QuotedAt.keeps_iff (.inl rfl)).symm
  | key =>
    rw [quotes.text_key]
    refine ⟨(TypeExpr.denotes_quote s).trans ?_, fun _ t quotes' same => ?_⟩
    · exact forall₂_congr fun _ _ => (QuotedAt.keeps_iff (.inr rfl)).symm
    · exact TypeExpr.quote_injective (quotes'.text_key.symm.trans same)
  | module =>
    refine ⟨denotes_verbatim s, fun _ t _ same => ?_⟩
    exact (String.append_right_inj "'").1 ((String.append_left_inj "'").1 same)

def possessive : Registry :=
  ⟨[⟨"A", .ofProperties [.of "it's" .string]⟩], by decide, .builtIn⟩

theorem possessive_denotes : ∃ document, (possessive.declarations "Internal" .blank).1 = .ok document ∧
    document.Quotes .key "it's" ∧ Denotes (QuotedAt.key.text "it's").toList "it's".toList := by
  let document : DeclarationDocument :=
    ⟨[], [⟨"A", [], .interface [⟨[], "it's", false, .keyword "string"⟩] none⟩]⟩
  have quotes : document.Quotes .key "it's" :=
    .declared List.mem_cons_self (.interface (.key (m := ⟨[], "it's", false, .keyword "string"⟩) List.mem_cons_self (by decide)))
  exact ⟨document, by cbv, quotes, (DeclarationDocument.quotes_denote quotes .usual).2.1.2 (List.all_eq_true.1 (by decide))⟩

def unquotable : Registry :=
  ⟨[⟨"A", .constantOf (.string "a\nb")⟩, ⟨"B", .importOf "Date" "it's"⟩], by decide, .builtIn⟩

theorem unquotable_denotes_nothing : ∃ document, (unquotable.declarations "Internal" .blank).1 = .ok document ∧
    (document.Quotes .literal "a\nb" ∧ ¬Denotes (QuotedAt.literal.text "a\nb").toList "a\nb".toList) ∧
    (document.Quotes .module "it's" ∧ ¬Denotes (QuotedAt.module.text "it's").toList "it's".toList) := by
  refine ⟨⟨[("it's", ["Date"])], [⟨"A", [], .alias_ (.literal (.string "a\nb"))⟩, ⟨"B", [], .alias_ (.named "Date")⟩]⟩, by cbv, ?_⟩
  refine ⟨⟨.declared List.mem_cons_self (.alias_ .literal), fun denotes => ?_⟩, .module List.mem_cons_self, fun denotes => ?_⟩
  · exact absurd ((TypeExpr.denotes_quote "a\nb").1 denotes '\n' (by decide)) (by decide)
  · exact absurd ((denotes_verbatim "it's").1 denotes '\'' (by decide)) (by decide)

end TwinShape
