import TwinShape.Decimal.Scaled
import TwinShape.Json.Value

namespace TwinShape

structure Numeral where
  negative : Bool
  whole : List Nat
  fraction : List Nat
  exponent : Option Int

namespace Numeral

def isExponentMark (c : Char) : Bool := c == 'e' || c == 'E'

def goesOn (read : List Char) (c : Char) : Bool :=
  bif c.isDigit then true
  else bif c == '.' then !read.any fun r => r == '.' || isExponentMark r
  else bif isExponentMark c then !read.any isExponentMark
  else bif c == '+' || c == '-' then read.head?.any isExponentMark
  else false

def digit? (c : Char) : Option Nat := if c.isDigit then some (c.toNat - 48) else none

def takeDigits (cs : List Char) : List Nat × List Char :=
  ((cs.takeWhile Char.isDigit).filterMap digit?, cs.dropWhile Char.isDigit)

def exponent? : List Char → Option (Option Int)
  | [] => some none
  | e :: rest =>
    bif isExponentMark e then
      let (negative, rest) := match rest with
        | '-' :: rest => (true, rest)
        | '+' :: rest => (false, rest)
        | rest => (false, rest)
      match takeDigits rest with
      | (digits@(_ :: _), []) =>
        let n : Nat := digits.foldl (fun n d => n * 10 + d) 0
        some (some (if negative then -n else n))
      | _ => none
    else none

def ofChars? (cs : List Char) : Option Numeral :=
  let (negative, cs) := match cs with
    | '-' :: rest => (true, rest)
    | cs => (false, cs)
  match takeDigits cs with
  | ([], _) | (0 :: _ :: _, _) => none
  | (whole, '.' :: rest) =>
    match takeDigits rest with
    | ([], _) => none
    | (fraction, rest) => (exponent? rest).map (⟨negative, whole, fraction, ·⟩)
  | (whole, rest) => (exponent? rest).map (⟨negative, whole, [], ·⟩)

-- A whole numeral stays whole while it fits; minus zero is a float.
def wholeNumber? (negative : Bool) (s : Scaled) : Option Number :=
  let n : Int := if negative then -s.significand else s.significand
  if h : s.exponent = 0 ∧ ¬(negative ∧ s.significand = 0) ∧
      -9223372036854775808 ≤ n ∧ n < 18446744073709551616 then
    some (.whole ⟨n, h.2.2.1, h.2.2.2⟩)
  else (s.toBinary64? negative).map .float

-- The number that a numeral stands for, unless it is too large for any.
def number? (n : Numeral) : Option Number :=
  let s := Scaled.start.pushWhole n.whole
  match n.fraction, n.exponent with
  | [], none => wholeNumber? n.negative s
  | fraction, exponent =>
    let s := s.pushFraction fraction
    ({ s with exponent := s.exponent + exponent.getD 0 }.toBinary64? n.negative).map .float

end Numeral
end TwinShape
