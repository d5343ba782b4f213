import TwinShape.Declaration.Comment
import TwinShape.Proofs.Declaration.Strings

namespace TwinShape.Script

inductive Token where
  | word (w : String)
  | numeral (n : String)
  | text (units : List Nat)
  | bar | openBracket | closeBracket | openParen | closeParen | openBrace | closeBrace
  | question | colon | semicolon | minus

def sign? : Char → Option Token
  | '|' => some .bar
  | '[' => some .openBracket
  | ']' => some .closeBracket
  | '(' => some .openParen
  | ')' => some .closeParen
  | '\x7b' => some .openBrace
  | '\x7d' => some .closeBrace
  | '?' => some .question
  | ':' => some .colon
  | ';' => some .semicolon
  | '-' => some .minus
  | _ => none

def isBlank (c : Char) : Bool := c == ' ' || c == '\t' || c == '\n' || c == '\r'

def isWhole (cs : List Char) : Bool := cs == ['0'] || (cs.all Char.isDigit && cs.head?.any (· != '0'))

def isNumeral (cs : List Char) : Bool :=
  match cs.dropWhile (· != '.') with
  | [] => isWhole cs
  | _ :: fraction => isWhole (cs.takeWhile (· != '.')) && !fraction.isEmpty && fraction.all Char.isDigit

def comment? : List Char → Option (List Char)
  | '*' :: '/' :: rest => some rest
  | _ :: rest => comment? rest
  | [] => none

-- What a name can start with and can go on with beyond ASCII.
structure Letters where
  starts : Char → Bool
  goesOn : Char → Bool
  within : ∀ c, starts c = true → goesOn c = true
  beyond : ∀ c, goesOn c = true → 128 ≤ c.toNat

theorem comment?_shorter (found : comment? cs = some after) : after.length < cs.length := by
  fun_induction comment? cs with
  | case1 rest =>
    cases found
    exact Nat.lt_succ_of_lt (Nat.lt_succ_self _)
  | case2 _ rest _ ih => exact Nat.lt_succ_of_lt (ih found)
  | case3 => cases found

theorem body?_shorter (found : body? cs = some (us, after)) : after.length < cs.length := by
  obtain ⟨used, rfl, -⟩ := body?_cases found
  rw [List.length_append, List.length_cons]
  omega

namespace Letters
variable (l : Letters)

def isStart (c : Char) : Bool := TypeExpr.isIdentifierStart c || l.starts c

def isPart (c : Char) : Bool := TypeExpr.isIdentifierPart c || l.goesOn c

def isWord : List Char → Bool
  | [] => false
  | c :: rest => l.isStart c && rest.all l.isPart

-- Words and numerals are runs that nothing of the kind goes on with.
def inRun (c : Char) : Bool := l.isPart c || c == '.'

def run? (run : List Char) : Option Token :=
  if l.isWord run then some (.word (String.ofList run))
  else if isNumeral run then some (.numeral (String.ofList run))
  else none

def lex : List Char → Option (List Token)
  | [] => some []
  | c :: rest =>
    if isBlank c then lex rest
    else if l.inRun c then
      (l.run? (c :: rest.takeWhile l.inRun)).bind fun t => (lex (rest.dropWhile l.inRun)).map (t :: ·)
    else if c = '\'' then
      match _read : body? rest with
      | none => none
      | some (us, after) => (lex after).map (.text us :: ·)
    else if c = '/' ∧ rest.head? = some '*' then
      match _read : comment? rest.tail with
      | none => none
      | some after => lex after
    else (sign? c).bind fun t => (lex rest).map (t :: ·)
termination_by cs => cs.length
decreasing_by
  · exact Nat.lt_succ_self _
  · exact Nat.lt_succ_of_le (List.dropWhile_sublist l.inRun).length_le
  · exact Nat.lt_succ_of_lt (body?_shorter _read)
  · refine Nat.lt_succ_of_lt (Nat.lt_of_lt_of_le (comment?_shorter _read) ?_)
    rw [List.length_tail]
    exact Nat.sub_le _ _
  · exact Nat.lt_succ_self _

variable {l}

theorem isPart_of_isStart (start : l.isStart c = true) : l.isPart c = true := by
  unfold isStart at start
  unfold isPart
  rcases Bool.or_eq_true_iff.1 start with ascii | letter
  · refine Bool.or_eq_true_iff.2 (.inl ?_)
    unfold TypeExpr.isIdentifierStart at ascii
    unfold TypeExpr.isIdentifierPart Char.isAlphanum
    rw [Bool.or_eq_true, Bool.or_eq_true] at ascii
    rcases ascii with (alpha | underscore) | dollar
    · rw [alpha]
      rfl
    · rw [underscore, Bool.or_true]
      rfl
    · rw [dollar, Bool.or_true]
  · exact Bool.or_eq_true_iff.2 (.inr (l.within c letter))

theorem inRun_ascii (ascii : c.toNat < 128) : l.inRun c = (TypeExpr.isIdentifierPart c || c == '.') := by
  unfold inRun isPart
  cases letter : l.goesOn c with
  | true => exact absurd (l.beyond c letter) (Nat.not_le.2 ascii)
  | false => rw [Bool.or_false]

theorem isStart_ascii (ascii : c.toNat < 128) : l.isStart c = TypeExpr.isIdentifierStart c := by
  unfold isStart
  cases letter : l.starts c with
  | true => exact absurd (l.beyond c (l.within c letter)) (Nat.not_le.2 ascii)
  | false => rw [Bool.or_false]

def Ends (l : Letters) (cs : List Char) : Prop := ∀ c, cs.head? = some c → l.inRun c = false

-- These characters are read as these tokens, whatever comes after them.
def Reads (l : Letters) (cs : List Char) (ts : List Token) : Prop :=
  ∀ rest, l.lex (cs ++ rest) = (l.lex rest).map (ts ++ ·)

-- And these, unless what comes after them goes on with their last run.
def Lexes (l : Letters) (cs : List Char) (ts : List Token) : Prop :=
  ∀ rest, l.Ends rest → l.lex (cs ++ rest) = (l.lex rest).map (ts ++ ·)

theorem Reads.lexes (reads : l.Reads cs ts) : l.Lexes cs ts := fun rest _ => reads rest

theorem map_append_nil (o : Option (List Token)) : o.map ([] ++ ·) = o := by
  cases o <;> rfl

theorem Reads.nil : l.Reads [] [] := fun _ => (map_append_nil _).symm

theorem map_append_append (o : Option (List Token)) :
    (o.map (us ++ ·)).map (ts ++ ·) = o.map ((ts ++ us) ++ ·) := by
  cases o with
  | none => rfl
  | some vs => exact congrArg some (List.append_assoc ts us vs).symm

theorem Reads.append (first : l.Reads a ts) (second : l.Reads b us) : l.Reads (a ++ b) (ts ++ us) := by
  intro rest
  rw [List.append_assoc, first, second, map_append_append]

theorem Reads.append_lexes (first : l.Reads a ts) (second : l.Lexes b us) : l.Lexes (a ++ b) (ts ++ us) := by
  intro rest ends
  rw [List.append_assoc, first, second rest ends, map_append_append]

theorem Ends.append (ends : l.Ends b) (some_ : b ≠ []) (rest : List Char) : l.Ends (b ++ rest) := by
  cases b with
  | nil => exact absurd rfl some_
  | cons c b => exact ends

theorem Lexes.append_reads (first : l.Lexes a ts) (second : l.Reads b us) (ends : l.Ends b) (some_ : b ≠ []) :
    l.Reads (a ++ b) (ts ++ us) := by
  intro rest
  rw [List.append_assoc, first _ (ends.append some_ rest), second, map_append_append]

theorem Lexes.lex_eq (lexes : l.Lexes cs ts) : l.lex cs = some ts := by
  have whole := lexes [] nofun
  rw [List.append_nil, lex] at whole
  rw [whole]
  exact congrArg some (List.append_nil ts)

theorem reads_blank (blank : isBlank c = true) : l.Reads [c] [] := by
  intro rest
  rw [List.singleton_append, lex, if_pos blank]
  exact (map_append_nil _).symm

theorem inRun_sign (known : sign? c = some t) : l.inRun c = false := by
  have each : c.toNat < 128 ∧ (TypeExpr.isIdentifierPart c || c == '.') = false := by
    unfold sign? at known
    split at known <;> cases known <;> decide
  rw [inRun_ascii each.1, each.2]

theorem reads_sign (known : sign? c = some t) : l.Reads [c] [t] := by
  have each : isBlank c = false ∧ c ≠ '\'' ∧ c ≠ '/' := by
    unfold sign? at known
    split at known <;> cases known <;> decide
  obtain ⟨blank, quote, slash⟩ := each
  intro rest
  rw [List.singleton_append, lex, if_neg (by rw [blank]; decide), if_neg (by rw [inRun_sign known]; decide),
    if_neg quote, if_neg (fun opened => slash opened.1), known]
  rfl

theorem reads_quoted (read : ∀ rest, singleQuoted? (cs ++ rest) = some (us, rest)) (quote : cs.head? = some '\'') :
    l.Reads cs [.text us] := by
  intro rest
  cases cs with
  | nil => cases quote
  | cons c cs =>
    cases quote
    have body : body? (cs ++ rest) = some (us, rest) := read rest
    have part : l.inRun '\'' = false := inRun_ascii (by decide)
    rw [List.cons_append, lex, if_neg (by decide), if_neg (by rw [part]; decide), if_pos rfl]
    split
    · rename_i none_
      cases body.symm.trans none_
    · rename_i some_
      cases body.symm.trans some_
      rfl

theorem reads_comment (closed : ∀ rest, comment? (cs ++ rest) = some rest) : l.Reads ('/' :: '*' :: cs) [] := by
  intro rest
  have part : l.inRun '/' = false := inRun_ascii (by decide)
  rw [List.cons_append, List.cons_append, lex, if_neg (by decide), if_neg (by rw [part]; decide), if_neg (by decide),
    if_pos ⟨rfl, rfl⟩]
  split
  · rename_i none_
    cases (closed rest).symm.trans none_
  · rename_i some_
    cases (closed rest).symm.trans some_
    exact (map_append_nil _).symm

theorem blank_of_inRun (inside : l.inRun c = true) : isBlank c = false := by
  refine Bool.eq_false_iff.2 fun blank => ?_
  have ascii : c.toNat < 128 ∧ (TypeExpr.isIdentifierPart c || c == '.') = false := by
    unfold isBlank at blank
    simp only [Bool.or_eq_true, beq_iff_eq] at blank
    rcases blank with ((rfl | rfl) | rfl) | rfl <;> decide
  rw [inRun_ascii ascii.1, ascii.2] at inside
  cases inside

theorem ends_sign (known : sign? c = some t) (rest : List Char) : l.Ends (c :: rest) := by
  rintro _ ⟨⟩
  exact inRun_sign known

theorem ends_blank (blank : isBlank c = true) (rest : List Char) : l.Ends (c :: rest) := by
  rintro _ ⟨⟩
  refine Bool.eq_false_iff.2 fun inside => ?_
  rw [blank_of_inRun inside] at blank
  cases blank

theorem lexes_run (each : ∀ c ∈ cs, l.inRun c = true) (read : l.run? cs = some t) :
    l.Lexes cs [t] := by
  intro rest ends
  cases cs with
  | nil =>
    unfold run? at read
    cases read
  | cons c cs =>
    have within : ∀ d ∈ cs, l.inRun d = true := fun d member => each d (List.mem_cons_of_mem _ member)
    have stop : rest.takeWhile l.inRun = [] ∧ rest.dropWhile l.inRun = rest := by
      cases rest with
      | nil => exact ⟨rfl, rfl⟩
      | cons d rest =>
        have ended : ¬l.inRun d = true := by
          rw [ends d rfl]
          decide
        exact ⟨List.takeWhile_cons_of_neg ended, List.dropWhile_cons_of_neg ended⟩
    have taken : (cs ++ rest).takeWhile l.inRun = cs := by
      rw [List.takeWhile_append_of_pos within, stop.1, List.append_nil]
    have left : (cs ++ rest).dropWhile l.inRun = rest := by
      rw [List.dropWhile_append_of_pos within, stop.2]
    have here := each c List.mem_cons_self
    rw [List.cons_append, lex, if_neg (by rw [blank_of_inRun here]; decide), if_pos here, taken, left, read]
    rfl

theorem inRun_of_isPart (part : l.isPart c = true) : l.inRun c = true := Bool.or_eq_true_iff.2 (.inl part)

theorem lexes_word (word : l.isWord cs = true) : l.Lexes cs [.word (String.ofList cs)] := by
  refine lexes_run ?_ (if_pos word)
  cases cs with
  | nil => cases word
  | cons c rest =>
    obtain ⟨first, further⟩ := Bool.and_eq_true_iff.1 word
    refine List.forall_mem_cons.2 ⟨inRun_of_isPart (isPart_of_isStart first), fun d member => ?_⟩
    exact inRun_of_isPart (List.all_eq_true.1 further d member)

end Letters

theorem isDigit_of_isWhole (whole : isWhole cs = true) : ∃ c rest, cs = c :: rest ∧ ∀ d ∈ cs, d.isDigit = true := by
  rcases Bool.or_eq_true_iff.1 whole with zero | more
  · cases eq_of_beq zero
    exact ⟨'0', [], rfl, List.forall_mem_singleton.2 rfl⟩
  · obtain ⟨digits, first⟩ := Bool.and_eq_true_iff.1 more
    cases cs with
    | nil => cases first
    | cons c rest => exact ⟨c, rest, rfl, List.all_eq_true.1 digits⟩

theorem digit_ascii {c : Char} (digit : c.isDigit = true) :
    c.toNat < 128 ∧ TypeExpr.isIdentifierPart c = true ∧ TypeExpr.isIdentifierStart c = false := by
  have small : c.toNat < 128 := isAlphanum_ascii (Bool.or_eq_true_iff.2 (.inr digit))
  have each : ∀ n : Fin 128, (Char.ofNat n).isDigit = true →
      TypeExpr.isIdentifierPart (Char.ofNat n) = true ∧ TypeExpr.isIdentifierStart (Char.ofNat n) = false := by decide
  exact ⟨small, of_ascii (P := fun c => c.isDigit = true → TypeExpr.isIdentifierPart c = true ∧ TypeExpr.isIdentifierStart c = false)
    each small digit⟩

theorem isDigit_of_isNumeral (numeral : isNumeral cs = true) :
    ∃ c rest, cs = c :: rest ∧ c.isDigit = true ∧ ∀ d ∈ cs, d.isDigit = true ∨ d = '.' := by
  have split := List.takeWhile_append_dropWhile (p := (· != '.')) (l := cs)
  unfold isNumeral at numeral
  split at numeral
  · rename_i none_
    obtain ⟨c, rest, rfl, digits⟩ := isDigit_of_isWhole numeral
    exact ⟨c, rest, rfl, digits c List.mem_cons_self, fun d member => .inl (digits d member)⟩
  · rename_i point fraction left
    rw [Bool.and_eq_true, Bool.and_eq_true] at numeral
    obtain ⟨⟨whole, -⟩, fractional⟩ := numeral
    have mark : point = '.' := by
      have head := List.head?_dropWhile_not (· != '.') cs
      rw [left] at head
      simpa using head
    obtain ⟨c, rest, same, digits⟩ := isDigit_of_isWhole whole
    rw [same] at digits split
    rw [left] at split
    refine ⟨c, rest ++ point :: fraction, split.symm, digits c List.mem_cons_self, fun d member => ?_⟩
    rw [← split] at member
    rcases List.mem_append.1 member with before | behind
    · exact .inl (digits d before)
    · rcases List.mem_cons.1 behind with rfl | behind
      · exact .inr mark
      · exact .inl (List.all_eq_true.1 fractional d behind)

namespace Letters
variable {l : Letters}

theorem lexes_numeral (numeral : isNumeral cs = true) : l.Lexes cs [.numeral (String.ofList cs)] := by
  obtain ⟨c, rest, rfl, first, each⟩ := isDigit_of_isNumeral numeral
  have unword : ¬l.isWord (c :: rest) = true := by
    intro word
    have start := (Bool.and_eq_true_iff.1 word).1
    rw [isStart_ascii (digit_ascii first).1, (digit_ascii first).2.2] at start
    cases start
  refine lexes_run (fun d member => ?_) ?_
  · rcases each d member with digit | rfl
    · exact inRun_of_isPart (Bool.or_eq_true_iff.2 (.inl (digit_ascii digit).2.1))
    · exact Bool.or_eq_true_iff.2 (.inr rfl)
  · unfold run?
    rw [if_neg unword, if_pos numeral]

end Letters
end TwinShape.Script
