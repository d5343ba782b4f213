import TwinShape.Decimal.Binary64

namespace TwinShape

-- A positive decimal `digits * 10 ^ exponent`; shortest ones have no trailing zero.
structure Decimal where
  digits : List Char
  exponent : Int
deriving DecidableEq

namespace Decimal

def leading (d : Decimal) : Int := d.exponent + d.digits.length - 1

def ofNat (n : Nat) (exponent : Int) : Decimal :=
  let kept := (Nat.toDigits 10 n).reverse.dropWhile (· == '0')
  ⟨kept.reverse, exponent + ((Nat.toDigits 10 n).length - kept.length : Nat)⟩

end Decimal

namespace Binary64

-- The reals that round to the place `rank` lie between the midpoints with the two
-- neighbouring places; the midpoints belong to it iff the place is even. A point
-- `c * 10 ^ k` is tested on that interval, all in half units.
def admits (rank : Nat) (k : Int) (c : Nat) : Bool :=
  let point := 2 * c * unitsPerOne * Nat.pow 10 k.toNat
  let low := (magnitudeAt (rank - 1) + magnitudeAt rank) * Nat.pow 10 (-k).toNat
  let high := (magnitudeAt rank + magnitudeAt (rank + 1)) * Nat.pow 10 (-k).toNat
  if rank % 2 == 0 then low ≤ point && point ≤ high else low < point && point < high

def floorOn (rank : Nat) (k : Int) : Nat × Nat × Nat :=
  let n := magnitudeAt rank * Nat.pow 10 (-k).toNat
  let step := unitsPerOne * Nat.pow 10 k.toNat
  (n / step, 2 * (n % step), step)

-- Both neighbours on the grid, the nearer one first; the caller says where a tie goes.
def neighboursOn (tieUp : Bool) (rank : Nat) (k : Int) : Nat × Nat :=
  let (below, rest, step) := floorOn rank k
  if rest < step then (below, below + 1)
  else if step < rest then (below + 1, below)
  else if tieUp || below % 2 == 1 then (below + 1, below) else (below, below + 1)

-- At a power of two the interval reaches further up than down, so the neighbour that lies in it
-- need not be the nearer one.
def refine (tieUp : Bool) (rank : Nat) : Nat → Int → Decimal
  | 0, k => .ofNat (neighboursOn tieUp rank k).1 k
  | more + 1, k =>
    let (near, far) := neighboursOn tieUp rank k
    if near != 0 && admits rank k near then .ofNat near k
    else if far != 0 && admits rank k far then .ofNat far k
    else refine tieUp rank more (k - 1)

-- The power of ten of the value's first digit, or the one above it.
def firstGrid (rank : Nat) : Int :=
  let m := magnitudeAt rank
  if unitsPerOne ≤ m then (Nat.toDigits 10 (m / unitsPerOne)).length - 1
  else 1 - (Nat.toDigits 10 (unitsPerOne / m)).length

-- The decimal with the fewest digits that reads back as this magnitude, and of those the
-- nearest. Seventeen digits always suffice.
def shortest (tieUp : Bool) (rank : Nat) : Decimal :=
  refine tieUp rank 17 (firstGrid rank)

end Binary64
end TwinShape
