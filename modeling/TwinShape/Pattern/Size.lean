import TwinShape.Pattern.Expression

namespace TwinShape

-- A range of bytes for every byte of the characters it spells.
abbrev ByteRanges := List (Nat × Nat)

namespace ByteRanges

def boxes (mark : Nat) : (digits : Nat) → (low high : Nat) → List ByteRanges
  | 0, low, high => [[(mark + low, mark + high)]]
  | digits + 1, low, high =>
    let block := 1 <<< (6 * (digits + 1))
    let first := low / block
    let last := high / block
    let top (n : Nat) := (mark + n, mark + n)
    if first = last then
      (boxes 128 digits (low % block) (high % block)).map (top first :: ·)
    else
      let cutLow := low % block != 0
      let cutHigh := high % block != block - 1
      let begin_ := bif cutLow then (boxes 128 digits (low % block) (block - 1)).map (top first :: ·) else []
      let finish := bif cutHigh then (boxes 128 digits 0 (high % block)).map (top last :: ·) else []
      let low := first + cutLow.toNat
      let high := last - cutHigh.toNat
      let middle := if low ≤ high then [(mark + low, mark + high) :: List.replicate (digits + 1) (128, 191)] else []
      begin_ ++ middle ++ finish

-- Code points by how many bytes they take. No character has a surrogate's code point.
def lengths : List (Nat × Nat × Nat × Nat) :=
  [(0, 0, 0, 127), (192, 1, 128, 2047), (224, 2, 2048, 55295), (224, 2, 57344, 65535),
    (240, 3, 65536, 1114111)]

def ofRanges (r : Ranges) : List ByteRanges :=
  r.flatMap fun (low, high) =>
    lengths.flatMap fun (mark, digits, least, most) =>
      if max low least ≤ min high most then boxes mark digits (max low least) (min high most) else []

def tails : List ByteRanges → List (List ByteRanges)
  | [] => []
  | [] :: rest => tails rest
  | (first :: tail) :: rest =>
    match rest with
    | (next :: _) :: _ =>
      if next = first then
        match tails rest with
        | group :: others => (tail :: group) :: others
        | [] => [[tail]]
      else [tail] :: tails rest
    | _ => [tail] :: tails rest

def remainders : Nat → List ByteRanges → List (List ByteRanges)
  | 0, _ => []
  | n + 1, sequences =>
    if sequences = [[]] then [] else sequences :: (tails sequences).flatMap (remainders n)

end ByteRanges

-- How much an automaton takes: a state, and each arrow or branch that leaves one.
namespace Size

def state : Nat := 32
def arrow : Nat := 8
def branch : Nat := 4

def forward (sequences : List ByteRanges) : Nat :=
  (ByteRanges.remainders 4 sequences).eraseDups.foldl
    (fun sum remainder => sum + state + arrow * (ByteRanges.tails remainder).length) state

def added : ByteRanges → ByteRanges → Nat
  | a :: as, b :: bs => if a = b then added as bs else (b :: bs).length
  | _, bs => bs.length

-- Reading backward, sequences share the states of their common front only.
def backward (sequences : List ByteRanges) : Nat :=
  (sequences.zip ([] :: sequences)).foldl
    (fun sum (sequence, previous) => sum + branch + state * added previous sequence) (2 * state)

end Size

namespace CharSet

def plainCount? : CharSet → Option Nat
  | .nothing => some 0
  | .range _ high => if high.toNat < 128 then some 1 else none
  | .either a b => do some ((← a.plainCount?) + (← b.plainCount?))
  | .named .plainDigit => some 1
  | .named .plainWord => some 4
  | _ => none

def foldedRanges (r : Ranges) : Ranges :=
  let cased := foldings.flatMap fun (low, high, step, add) =>
    (List.range ((high - low) / step + 1)).flatMap fun i =>
      [low + i * step, ((low + i * step : Nat) + add).toNat]
  let variants := (cased.filter fun code => r.has (Char.ofNat code)).flatMap fun code =>
    (caseVariants (Char.ofNat code)).map fun c => (c.toNat, c.toNat)
  Ranges.join r (Ranges.ofList variants)

def ranges : CharSet → Ranges
  | .nothing => []
  | .range low high => [(low.toNat, high.toNat)]
  | .named name => name.ranges
  | .either a b => a.ranges.join b.ranges
  | .both a b => (a.ranges.complement.join b.ranges.complement).complement
  | .complement a => a.ranges.complement
  | .folded a => foldedRanges a.ranges

-- A size that is not less than the true one of a set that patterns name.
def roughSize (s : CharSet) : Nat :=
  match s.plainCount? with
  | some n => 2 * Size.state + Size.arrow * n
  | none => 65536

def size (backward : Bool) (s : CharSet) : Nat :=
  let ranges := s.ranges
  let sequences := ByteRanges.ofRanges ranges
  let isSingle := match ranges with
    | [(low, high)] => low == high
    | _ => false
  bif isSingle then Size.state * (sequences.map List.length).foldl Nat.add 0
  else bif sequences.all (·.length == 1) then 2 * Size.state + Size.arrow * sequences.length
  else bif backward then Size.backward sequences
  else Size.forward sequences

end CharSet

namespace Regex

variable {σ τ : Type}

def canBeEmpty : Regex σ τ → Bool
  | .nothing | .empty | .anchor _ | .look .. => true
  | .set _ => false
  | .seq a b => a.canBeEmpty && b.canBeEmpty
  | .either a b => a.canBeEmpty || b.canBeEmpty
  | .repeated a least _ _ => least == 0 || a.canBeEmpty
  | .group a | .atomic a => a.canBeEmpty

def onlyEmpty : Regex σ τ → Bool
  | .nothing | .set _ => false
  | .empty | .anchor _ | .look .. => true
  | .seq a b | .either a b => a.onlyEmpty && b.onlyEmpty
  | .repeated a _ most _ => a.onlyEmpty || most == some 0
  | .group a | .atomic a => a.onlyEmpty

def repeatedSize (canBeEmpty : Bool) (one least : Nat) (most : Option Nat) : Nat :=
  let fork := Size.state + 2 * Size.branch
  match least, most with
  | 0, none => one + fork + bif canBeEmpty then fork + Size.state else 0
  | least, none => least * one + fork
  | 0, some 0 => Size.state
  | 0, some 1 => one + fork + Size.state
  | least, some most =>
    max Size.state (least * one) +
      if least < most then Size.state + (most - least) * (fork + one) else 0

-- The size of the automaton for an expression, given the size of each set and of what
-- remembers a group.
def size (set : σ → Nat) (group : Nat) : Regex σ τ → Nat
  | .nothing | .empty | .anchor _ => Size.state
  | .set s => set s
  | .seq a b => a.size set group + b.size set group
  | .either a b =>
    a.size set group + b.size set group + Size.branch +
      match b with
      | .either .. => 0
      | _ => Size.branch + 2 * Size.state
  | .repeated a least most _ =>
    bif a.onlyEmpty then
      repeatedSize true (a.size set group) (min least 1) (some ((most.getD 1).min 1))
    else repeatedSize a.canBeEmpty (a.size set group) least most
  | .group a => group + a.size set group
  | .atomic a | .look _ _ a => a.size set group

end Regex

namespace Pattern

def sizeLimit : Nat := 10485760

-- Whether the automata of a pattern stay within the limit, forward and backward. Most are so
-- small that a rough look tells.
def fits (p : Pattern) : Bool :=
  Regex.size CharSet.roughSize (2 * Size.state) p ≤ sizeLimit ||
    (Regex.size (CharSet.size false) (2 * Size.state) p ≤ sizeLimit &&
      Regex.size (CharSet.size true) 0 p ≤ sizeLimit)

end Pattern
end TwinShape
