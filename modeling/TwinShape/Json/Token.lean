import TwinShape.Json.Numeral
import TwinShape.Json.Outline

namespace TwinShape.Json

inductive Token where
  | openArray | closeArray | openObject | closeObject | comma | colon
  -- What it says, unless it has half of a surrogate pair in it.
  | string (s : Option String)
  -- Numbers and the three words.
  | scalar (o : Outline)
  -- No token begins or goes on here; it is the last one.
  | broken

def hexValue? (c : Char) : Option Nat :=
  if c.isDigit then some (c.toNat - 48)
  else if 'a' ≤ c ∧ c ≤ 'f' then some (c.toNat - 87)
  else if 'A' ≤ c ∧ c ≤ 'F' then some (c.toNat - 55)
  else none

-- The text that code points and halves of surrogate pairs spell, which are given last first. A
-- second half waits in `low` for the first, which must stand right before it.
def textOfUnits? (low : Option Nat) (done : List Char) : List Nat → Option String
  | [] => if low.isNone then some (String.ofList done) else none
  | u :: before =>
    if 0xD800 ≤ u ∧ u < 0xDC00 then
      match low with
      | some l =>
        textOfUnits? none (Char.ofNat (0x10000 + (u - 0xD800) * 0x400 + (l - 0xDC00)) :: done)
          before
      | none => none
    else if low.isSome then none
    else if 0xDC00 ≤ u ∧ u < 0xE000 then textOfUnits? (some u) done before
    else textOfUnits? none (Char.ofNat u :: done) before

-- What the lexer is in the middle of; what it has read is kept in reverse.
inductive Lexing where
  | between
  -- What is left of a word, and what the word stands for.
  | word (left : List Char) (o : Outline)
  | numeral (read : List Char)
  | string (units : List Nat)
  | escape (units : List Nat)
  | unicode (units : List Nat) (left value : Nat)

def escaped? : Char → Option Char
  | '"' => some '"'
  | '\\' => some '\\'
  | '/' => some '/'
  | 'b' => some '\x08'
  | 'f' => some '\x0c'
  | 'n' => some '\n'
  | 'r' => some '\r'
  | 't' => some '\t'
  | _ => none

-- The tokens that a character completes, and how it goes on unless that was the last one.
abbrev Step := List Token × Option Lexing

def stuck : Step := ([.broken], none)

def into (next : Lexing) : Step := ([], some next)

def complete (t : Token) : Step := ([t], some .between)

def stepBetween (c : Char) : Step :=
  match c with
  | ' ' | '\t' | '\n' | '\r' => into .between
  | '"' => into (.string [])
  | '[' => complete .openArray
  | ']' => complete .closeArray
  | '\x7b' => complete .openObject
  | '\x7d' => complete .closeObject
  | ',' => complete .comma
  | ':' => complete .colon
  | 'n' => into (.word ['u', 'l', 'l'] .null)
  | 't' => into (.word ['r', 'u', 'e'] (.bool true))
  | 'f' => into (.word ['a', 'l', 's', 'e'] (.bool false))
  | c => if c = '-' ∨ c.isDigit then into (.numeral [c]) else stuck

def numeral? (read : List Char) : Option Token :=
  (Numeral.ofChars? read.reverse).map fun n => .scalar (.number n.number?)

def endOf : Lexing → List Token
  | .between => []
  | .numeral read => [(numeral? read).getD .broken]
  | _ => [.broken]

def step (state : Lexing) (c : Char) : Step :=
  match state with
  | .between => stepBetween c
  | .word [] _ => stuck
  | .word (l :: left) o =>
    if c = l then (if left.isEmpty then complete (.scalar o) else into (.word left o)) else stuck
  | .numeral read =>
    bif Numeral.goesOn read c then into (.numeral (c :: read))
    else
      match numeral? read with
      | some t =>
        let (tokens, next) := stepBetween c
        (t :: tokens, next)
      | none => stuck
  | .string units =>
    if c = '"' then complete (.string (textOfUnits? none [] units))
    else if c = '\\' then into (.escape units)
    else if c.toNat < 0x20 then stuck
    else into (.string (c.toNat :: units))
  | .escape units =>
    if c = 'u' then into (.unicode units 4 0)
    else
      match escaped? c with
      | some c => into (.string (c.toNat :: units))
      | none => stuck
  | .unicode units left value =>
    match hexValue? c with
    | none => stuck
    | some h =>
      let value := value * 16 + h
      if left ≤ 1 then into (.string (value :: units)) else into (.unicode units (left - 1) value)

-- `done` holds the tokens in reverse.
def lexFrom (done : List Token) (state : Lexing) : List Char → List Token
  | [] => ((endOf state).reverse ++ done).reverse
  | c :: rest =>
    match step state c with
    | (tokens, some next) => lexFrom (tokens.reverse ++ done) next rest
    | (tokens, none) => (tokens.reverse ++ done).reverse

def lex (cs : List Char) : List Token := lexFrom [] .between cs

end TwinShape.Json
