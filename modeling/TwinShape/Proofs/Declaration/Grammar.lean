import TwinShape.Proofs.Declaration.Tokens

namespace TwinShape.Script

structure Entry (τ : Type) where
  key : List Nat
  optional : Bool
  type : τ

-- What a type can be an alternative of. A type is a list of these.
inductive Operand where
  | keyword (word : String)
  | named (name : String)
  | numeral (text : String)
  | text (units : List Nat)
  | array (item : List Operand)
  | record (entries : List (Entry (List Operand))) (index : Option (List Operand))

def predefined : List String :=
  ["any", "bigint", "boolean", "false", "never", "null", "number", "object", "string", "symbol", "true", "undefined",
    "unknown", "void"]

def reserved : List String :=
  ["abstract", "as", "asserts", "await", "break", "case", "catch", "class", "const", "continue", "debugger", "default",
    "delete", "do", "else", "enum", "export", "extends", "finally", "for", "function", "if", "implements", "import", "in",
    "infer", "instanceof", "interface", "intrinsic", "is", "keyof", "let", "new", "package", "private", "protected",
    "public", "readonly", "return", "static", "super", "switch", "this", "throw", "try", "typeof", "unique", "var",
    "while", "with", "yield"]

abbrev Reading (α : Type) := List Token → Option (α × List Token)

-- Brackets bind to what stands right before them.
def readSuffixes (us : List Operand) : List Token → List Operand × List Token
  | .openBracket :: .closeBracket :: rest => readSuffixes [.array us] rest
  | rest => (us, rest)

def key? : Token → Option (List Nat)
  | .word w => some (units w.toList)
  | .text us => some us
  | _ => none

def readKey : Reading (List Nat × Bool)
  | t :: .question :: .colon :: rest => (key? t).map fun key => ((key, true), rest)
  | t :: .colon :: rest => (key? t).map fun key => ((key, false), rest)
  | _ => none

section
variable (type : Reading (List Operand))

def readLine : Reading (List Operand) := fun ts =>
  (type ts).bind fun (us, after) =>
    match after with
    | .semicolon :: rest => some (us, rest)
    | _ => none

def readEntries : Nat → Reading (List (Entry (List Operand)) × Option (List Operand))
  | 0, _ => none
  | _ + 1, .closeBrace :: rest => some (([], none), rest)
  | lines + 1, .openBracket :: .word _ :: .colon :: .word w :: .closeBracket :: .colon :: rest =>
    if w = "string" then
      (readLine type rest).bind fun (us, after) =>
        (readEntries lines after).bind fun ((entries, index), after) =>
          if index.isNone then some ((entries, some us), after) else none
    else none
  | lines + 1, ts =>
    (readKey ts).bind fun ((key, optional), rest) =>
      (readLine type rest).bind fun (us, after) =>
        (readEntries lines after).map fun ((entries, index), after) => ((⟨key, optional, us⟩ :: entries, index), after)

def readPrimary : Reading (List Operand)
  | .word w :: rest =>
    if w ∈ predefined then some ([.keyword w], rest)
    else if w ∈ reserved then none
    else some ([.named w], rest)
  | .numeral n :: rest => some ([.numeral n], rest)
  | .minus :: .numeral n :: rest => some ([.numeral ("-" ++ n)], rest)
  | .text us :: rest => some ([.text us], rest)
  | .openParen :: rest =>
    (type rest).bind fun (us, after) =>
      match after with
      | .closeParen :: after => some (us, after)
      | _ => none
  | .openBrace :: rest => (readEntries type rest.length rest).map fun ((entries, index), after) => ([.record entries index], after)
  | _ => none

def readOperand : Reading (List Operand) := fun ts =>
  (readPrimary type ts).map fun (us, after) => readSuffixes us after

end

def readType : Nat → Reading (List Operand)
  | 0, _ => none
  | n + 1, ts =>
    (readOperand (readType n) ts).bind fun (us, after) =>
      match after with
      | .bar :: rest => (readType n rest).map fun (vs, after) => (us ++ vs, after)
      | _ => some (us, after)

def typeOf? (ts : List Token) : Option (List Operand) :=
  match readType ts.length ts with
  | some (us, []) => some us
  | _ => none

structure IsOperand (ts : List Token) (us : List Operand) : Prop where
  some_ : us ≠ []
  read : ∀ n rest, ts.length ≤ n + 1 → readOperand (readType n) (ts ++ rest) = some (readSuffixes us rest)

inductive IsType : List Token → List Operand → Prop
  | one (operand : IsOperand ts us) : IsType ts us
  | more (first : IsOperand ts us) (later : IsType ts' us') : IsType (ts ++ .bar :: ts') (us ++ us')

-- Where a type ends.
def Stops (rest : List Token) : Prop := ∀ t, rest.head? = some t → t ≠ .bar ∧ t ≠ .openBracket

theorem readSuffixes_stop (us : List Operand) (stop : ∀ t, rest.head? = some t → t ≠ .openBracket) :
    readSuffixes us rest = (us, rest) := by
  unfold readSuffixes
  split
  · exact absurd rfl (stop _ rfl)
  · rfl

theorem IsOperand.ne_nil (operand : IsOperand ts us) : ts ≠ [] := by
  rintro rfl
  cases operand.read 0 [] (Nat.zero_le _)

theorem IsOperand.array (operand : IsOperand ts us) : IsOperand (ts ++ [.openBracket, .closeBracket]) [.array us] := by
  refine ⟨List.cons_ne_nil _ _, fun n rest few => ?_⟩
  rw [List.length_append] at few
  rw [List.append_assoc, operand.read n _ (by omega)]
  rfl

theorem isOperand_of_primary (some_ : us ≠ [])
    (read : ∀ n rest, ts.length ≤ n + 1 → readPrimary (readType n) (ts ++ rest) = some (us, rest)) :
    IsOperand ts us := by
  refine ⟨some_, fun n rest few => ?_⟩
  unfold readOperand
  rw [read n rest few]
  rfl

theorem IsType.some_ (type : IsType ts us) : us ≠ [] := by
  cases type with
  | one operand => exact operand.some_
  | more first _ => exact List.append_ne_nil_of_left_ne_nil first.some_ _

theorem IsType.read (type : IsType ts us) :
    ∀ n rest, ts.length ≤ n → Stops rest → readType n (ts ++ rest) = some (us, rest) := by
  induction type with
  | @one ts us operand =>
    intro n rest few stops
    have some_ := List.length_pos_iff.2 operand.ne_nil
    obtain ⟨n, rfl⟩ : ∃ m, n = m + 1 := Nat.exists_eq_succ_of_ne_zero (by omega)
    rw [readType, operand.read n rest few, readSuffixes_stop us fun t first => (stops t first).2]
    cases rest with
    | nil => rfl
    | cons t rest =>
      have unbarred := (stops t rfl).1
      cases t <;> first | rfl | exact absurd rfl unbarred
  | @more ts us ts' us' first _ ih =>
    intro n rest few stops
    rw [List.length_append, List.length_cons] at few
    obtain ⟨n, rfl⟩ : ∃ m, n = m + 1 := Nat.exists_eq_succ_of_ne_zero (by omega)
    rw [List.append_assoc, readType, first.read n _ (by omega), List.cons_append, readSuffixes_stop us (by rintro t ⟨⟩; nofun)]
    dsimp only [Option.bind_some]
    rw [ih n rest (by omega) stops]
    rfl

theorem IsType.typeOf?_eq (type : IsType ts us) : typeOf? ts = some us := by
  have whole := type.read ts.length [] (Nat.le_refl _) nofun
  rw [List.append_nil] at whole
  unfold typeOf?
  rw [whole]

theorem IsType.append (first : IsType a us) (second : IsType b vs) : IsType (a ++ .bar :: b) (us ++ vs) := by
  induction first with
  | one operand => exact .more operand second
  | more operand _ ih =>
    rw [List.append_assoc, List.append_assoc]
    exact .more operand ih

theorem IsType.last (type : IsType ts us) : IsOperand ts us ∨
    ∃ a b ua ub, ts = a ++ .bar :: b ∧ us = ua ++ ub ∧ IsType a ua ∧ IsOperand b ub := by
  induction type with
  | one operand => exact .inl operand
  | @more ts us _ _ first later ih =>
    refine .inr ?_
    rcases ih with operand | ⟨a, b, ua, ub, rfl, rfl, before, operand⟩
    · exact ⟨_, _, _, _, rfl, rfl, .one first, operand⟩
    · refine ⟨ts ++ .bar :: a, b, us ++ ua, ub, ?_, ?_, .more first before, operand⟩
      · rw [List.append_assoc, List.cons_append]
      · rw [List.append_assoc]

theorem IsType.grouped (type : IsType ts us) : IsOperand (.openParen :: ts ++ [.closeParen]) us := by
  refine isOperand_of_primary type.some_ fun n rest few => ?_
  rw [List.length_append, List.length_cons] at few
  rw [List.append_assoc, List.cons_append, readPrimary, type.read n _ (by omega) (by rintro t ⟨⟩; exact ⟨nofun, nofun⟩)]
  rfl

structure IsEntries (ts : List Token) (entries : List (Entry (List Operand))) (index : Option (List Operand)) : Prop where
  read : ∀ n lines rest, ts.length ≤ n → ts.length < lines →
    readEntries (readType n) lines (ts ++ .closeBrace :: rest) = some ((entries, index), rest)

theorem IsType.readLine_eq (type : IsType ts us) (few : ts.length ≤ n) (rest : List Token) :
    readLine (readType n) (ts ++ .semicolon :: rest) = some (us, rest) := by
  unfold readLine
  rw [type.read n _ few (by rintro t ⟨⟩; exact ⟨nofun, nofun⟩)]
  rfl

namespace IsEntries

theorem empty : IsEntries [] [] none := by
  refine ⟨fun n lines rest _ some_ => ?_⟩
  obtain ⟨lines, rfl⟩ : ∃ m, lines = m + 1 := Nat.exists_eq_succ_of_ne_zero (Nat.ne_of_gt some_)
  rfl

theorem signature (word : String) (type : IsType ts us) :
    IsEntries ([.openBracket, .word word, .colon, .word "string", .closeBracket, .colon] ++ ts ++ [.semicolon]) [] (some us) := by
  refine ⟨fun n lines rest few some_ => ?_⟩
  simp only [List.length_append, List.length_cons, List.length_nil] at few some_
  obtain ⟨lines, rfl⟩ : ∃ m, lines = m + 2 := ⟨lines - 2, by omega⟩
  rw [List.append_assoc, List.append_assoc]
  change readEntries (readType n) (lines + 1 + 1)
    (.openBracket :: .word word :: .colon :: .word "string" :: .closeBracket :: .colon :: (ts ++ .semicolon :: .closeBrace :: rest)) = _
  rw [readEntries, if_pos rfl, type.readLine_eq (by omega)]
  rfl

theorem cons (known : key? t = some key) (optional : Bool) (type : IsType ts us) (later : IsEntries ts' entries index) :
    IsEntries (t :: (if optional then [.question] else []) ++ .colon :: ts ++ .semicolon :: ts')
      (⟨key, optional, us⟩ :: entries) index := by
  refine ⟨fun n lines rest few some_ => ?_⟩
  simp only [List.length_append, List.length_cons] at few some_
  obtain ⟨lines, rfl⟩ : ∃ m, lines = m + 1 := Nat.exists_eq_succ_of_ne_zero (by omega)
  have line : readKey (t :: (if optional then [.question] else []) ++ .colon :: (ts ++ .semicolon :: (ts' ++ .closeBrace :: rest))) =
      some ((key, optional), ts ++ .semicolon :: (ts' ++ .closeBrace :: rest)) := by
    cases optional <;> cases t <;> cases known <;> rfl
  have step : readEntries (readType n) (lines + 1)
      (t :: (if optional then [.question] else []) ++ .colon :: (ts ++ .semicolon :: (ts' ++ .closeBrace :: rest))) =
      some ((⟨key, optional, us⟩ :: entries, index), rest) := by
    rw [readEntries]
    · rw [line]
      dsimp only [Option.bind_some]
      rw [type.readLine_eq (by omega)]
      dsimp only [Option.bind_some]
      rw [later.read n lines rest (by omega) (by omega)]
      rfl
    · intro more same
      cases t <;> cases known <;> cases same
    · intro word w more same
      cases t <;> cases known <;> cases same
  have same : (t :: (if optional then [.question] else []) ++ .colon :: ts ++ .semicolon :: ts') ++ .closeBrace :: rest =
      t :: (if optional then [.question] else []) ++ .colon :: (ts ++ .semicolon :: (ts' ++ .closeBrace :: rest)) := by
    simp only [List.append_assoc, List.cons_append]
  rw [same]
  exact step

theorem record (entries : IsEntries ts es index) :
    IsOperand (.openBrace :: ts ++ [.closeBrace]) [.record es index] := by
  refine isOperand_of_primary (List.cons_ne_nil _ _) fun n rest few => ?_
  rw [List.length_append, List.length_cons] at few
  have long : ts.length < (ts ++ .closeBrace :: rest).length := by
    rw [List.length_append, List.length_cons]
    omega
  rw [List.append_assoc, List.cons_append, List.singleton_append, readPrimary, entries.read n _ rest (by omega) long]
  rfl

end IsEntries
end TwinShape.Script
