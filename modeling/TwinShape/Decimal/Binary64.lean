namespace TwinShape

-- A finite double: its sign, and the place of its magnitude among the finite
-- magnitudes counted from zero, 2047 binades of 2^52 each. The two zeros stay apart.
structure Binary64 where
  negative : Bool
  rank : Fin 9218868437227405312
deriving DecidableEq

namespace Binary64

def unitsPerOne : Nat := 1 <<< 1074

def binade : Nat := 4503599627370496

-- The magnitude that stands at a place. It is stated for every natural number, so
-- the neighbour above the greatest double has one as well.
def magnitudeAt (rank : Nat) : Nat :=
  if rank < binade then rank
  else (binade + rank % binade) <<< (rank / binade - 1)

def magnitude (x : Binary64) : Nat := magnitudeAt x.rank

-- The exact value, in units of 2^-1074. Two doubles are numerically equal when their units
-- are, so the zeros agree here.
def units (x : Binary64) : Int :=
  if x.negative then -(x.magnitude : Int) else x.magnitude

-- Halfway goes to the even place. A round up that carries moves to the next binade by itself,
-- since places are consecutive.
def nearestRank (n d : Nat) : Nat :=
  let shift := (n / d).log2 - 52
  let step := d <<< shift
  let kept := n / step
  let rest := n % step
  let up := if step < 2 * rest ∨ (step = 2 * rest ∧ kept % 2 = 1) then 1 else 0
  shift * binade + kept + up

def ofRank? (negative : Bool) (rank : Nat) : Option Binary64 :=
  if h : rank < 9218868437227405312 then some ⟨negative, ⟨rank, h⟩⟩ else none

-- The double nearest to `n / d`, unless it is too large for one.
def ofRatio? (negative : Bool) (n d : Nat) : Option Binary64 :=
  ofRank? negative (nearestRank (n * unitsPerOne) d)

theorem nearestRank_lt {n : Nat} (small : n.log2 < 1138) :
    nearestRank n 1 < 9218868437227405312 := by
  have kept : n / 2 ^ (n.log2 - 52) < 9007199254740992 := by
    rw [Nat.div_lt_iff_lt_mul (Nat.two_pow_pos _)]
    have split : 9007199254740992 * 2 ^ (n.log2 - 52) = 2 ^ (53 + (n.log2 - 52)) := by
      rw [Nat.pow_add]
    rw [split]
    refine Nat.lt_of_lt_of_le (Nat.lt_log2_self (n := n)) (Nat.pow_le_pow_right (by decide) ?_)
    omega
  have shift : (n.log2 - 52) * binade ≤ 1085 * binade := Nat.mul_le_mul_right _ (by omega)
  simp only [nearestRank, Nat.div_one, Nat.one_shiftLeft]
  unfold binade at shift ⊢
  split <;> omega

theorem log2_mul_shift_lt {n a b : Nat} (small : n < 1 <<< a) (positive : 0 < a) :
    (n * 1 <<< b).log2 < a + b := by
  rw [Nat.one_shiftLeft] at small ⊢
  by_cases zero : n = 0
  · subst zero
    simp
    omega
  · rw [Nat.log2_lt (Nat.mul_ne_zero zero (Nat.ne_of_gt (Nat.two_pow_pos b))), Nat.pow_add]
    exact Nat.mul_lt_mul_of_pos_right small (Nat.two_pow_pos b)

def ofNat (negative : Bool) (n : Nat) (h : n < 18446744073709551616) : Binary64 :=
  ⟨negative, ⟨nearestRank (n * unitsPerOne) 1,
    nearestRank_lt (log2_mul_shift_lt (a := 64) h (by decide))⟩⟩

def mul? (x y : Binary64) : Option Binary64 :=
  ofRank? (x.negative != y.negative) (nearestRank (x.magnitude * y.magnitude) unitsPerOne)

def div? (x y : Binary64) : Option Binary64 :=
  ofRank? (x.negative != y.negative) (nearestRank (x.magnitude * unitsPerOne) y.magnitude)

def isWhole (x : Binary64) : Bool := x.magnitude % unitsPerOne == 0

end Binary64
end TwinShape
