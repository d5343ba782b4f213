import TwinShape.Pattern.CharSet

namespace TwinShape

inductive Anchor where
  -- Of the whole text, and of a line in it.
  | start | finish | lineStart | lineFinish
  -- Where a word and something else meet, where they do not, and one side of that.
  | wordEdge | noWordEdge
  | wordStart | wordFinish
  -- What comes before, or after, is no part of a word.
  | noWordBefore | noWordAfter
deriving DecidableEq

namespace Anchor

def inWord (c : Option Char) : Bool := c.any Ranges.words.has

def holds (before after : Option Char) : Anchor → Bool
  | .start => before.isNone
  | .finish => after.isNone
  | .lineStart => before.isNone || before == some '\n'
  | .lineFinish => after.isNone || after == some '\n'
  | .wordEdge => inWord before != inWord after
  | .noWordEdge => inWord before == inWord after
  | .wordStart => !inWord before && inWord after
  | .wordFinish => inWord before && !inWord after
  | .noWordBefore => !inWord before
  | .noWordAfter => !inWord after

end Anchor

-- Expressions over any kind of sets and of anchors.
inductive Regex (σ τ : Type) where
  -- No text at all, and the empty text.
  | nothing
  | empty
  | anchor (t : τ)
  | set (s : σ)
  | seq (a b : Regex σ τ)
  | either (a b : Regex σ τ)
  | repeated (a : Regex σ τ) (least : Nat) (most : Option Nat) (greedy : Bool)
  | group (a : Regex σ τ)
  -- Stays with its first way to match, whatever follows.
  | atomic (a : Regex σ τ)
  -- Holds where the expression could come next, or could come just before.
  | look (behind negated : Bool) (a : Regex σ τ)
deriving DecidableEq

abbrev Pattern := Regex CharSet Anchor

namespace Regex

variable {σ τ σ' τ' : Type}

def map (f : σ → σ') (g : τ → τ') : Regex σ τ → Regex σ' τ'
  | .nothing => .nothing
  | .empty => .empty
  | .anchor t => .anchor (g t)
  | .set s => .set (f s)
  | .seq a b => .seq (a.map f g) (b.map f g)
  | .either a b => .either (a.map f g) (b.map f g)
  | .repeated a least most greedy => .repeated (a.map f g) least most greedy
  | .group a => .group (a.map f g)
  | .atomic a => .atomic (a.map f g)
  | .look behind negated a => .look behind negated (a.map f g)

def seqAll : List (Regex σ τ) → Regex σ τ
  | [] => .empty
  | [r] => r
  | r :: rest => .seq r (seqAll rest)

def eitherAll : List (Regex σ τ) → Regex σ τ
  | [] => .nothing
  | [r] => r
  | r :: rest => .either r (eitherAll rest)

def width? : Regex σ τ → Option Nat
  | .nothing | .empty | .anchor _ | .look .. => some 0
  | .set _ => some 1
  | .seq a b => do some ((← a.width?) + (← b.width?))
  | .either a b => do
    let n ← a.width?
    if (← b.width?) = n then some n else none
  | .repeated a least most _ => do
    let n ← a.width?
    if some least = most ∨ n = 0 then some (least * n) else none
  | .group a | .atomic a => a.width?

end Regex
end TwinShape
