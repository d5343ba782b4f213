import Mathlib.Order.Monotone.Basic
import TwinShape.Proofs.Decimal.Rounding

namespace TwinShape
namespace Binary64

theorem exists_shift {rank : Nat} (normal : binade ≤ rank) :
    ∃ shift kept, binade ≤ kept ∧ kept < 2 * binade ∧ rank = shift * binade + kept := by
  have pos : 0 < binade := by decide
  have inside : rank % binade < binade := Nat.mod_lt _ pos
  have whole := Nat.div_add_mod' rank binade
  obtain ⟨shift, same⟩ := Nat.exists_eq_add_of_le' ((Nat.le_div_iff_mul_le pos).2 (show 1 * binade ≤ rank by omega))
  rw [same, Nat.add_mul] at whole
  exact ⟨shift, binade + rank % binade, by omega, by omega, by omega⟩

theorem magnitudeAt_lt_succ (rank : Nat) : magnitudeAt rank < magnitudeAt (rank + 1) := by
  by_cases subnormal : rank < binade
  · have here : magnitudeAt rank = rank := if_pos subnormal
    have next : magnitudeAt (rank + 1) = rank + 1 := by
      rcases Nat.lt_or_eq_of_le subnormal with below | last
      · exact if_pos below
      · have first := magnitudeAt_place (Nat.le_refl binade) (by decide) 0
        rwa [Nat.zero_mul, Nat.zero_add, Nat.pow_zero, Nat.mul_one, ← last] at first
    rw [here, next]
    exact Nat.lt_succ_self rank
  · obtain ⟨shift, kept, least, most, rfl⟩ := exists_shift (Nat.le_of_not_lt subnormal)
    rw [magnitudeAt_place least (Nat.le_of_lt most), Nat.add_assoc, magnitudeAt_place (Nat.le_succ_of_le least) most]
    exact Nat.mul_lt_mul_of_pos_right (Nat.lt_succ_self kept) (Nat.two_pow_pos shift)

theorem magnitudeAt_strictMono : StrictMono magnitudeAt := strictMono_nat_of_lt_succ magnitudeAt_lt_succ

theorem magnitudeAt_zero : magnitudeAt 0 = 0 := rfl

theorem dvd_magnitudeAt {rank k : Nat} (large : 2 ^ (63 + k) ≤ magnitudeAt rank) : 2 ^ (11 + k) ∣ magnitudeAt rank := by
  by_cases subnormal : rank < binade
  · have here : magnitudeAt rank = rank := if_pos subnormal
    have least : 2 ^ 52 ≤ 2 ^ (63 + k) := Nat.pow_le_pow_right (by decide) (by omega)
    rw [here] at large
    exact absurd subnormal (Nat.not_lt.2 (Nat.le_trans least large))
  · obtain ⟨shift, kept, least, most, rfl⟩ := exists_shift (Nat.le_of_not_lt subnormal)
    rw [magnitudeAt_place least (Nat.le_of_lt most)] at large ⊢
    refine Nat.dvd_mul_left_of_dvd (Nat.pow_dvd_pow 2 ?_) kept
    by_contra near
    have small : kept * 2 ^ shift < 2 ^ (63 + k) :=
      calc kept * 2 ^ shift < 2 ^ 53 * 2 ^ shift := Nat.mul_lt_mul_of_pos_right most (Nat.two_pow_pos shift)
        _ = 2 ^ (53 + shift) := (Nat.pow_add 2 53 shift).symm
        _ ≤ 2 ^ (63 + k) := Nat.pow_le_pow_right (by decide) (by omega)
    exact absurd large (Nat.not_le.2 small)

-- How far a magnitude is from a number.
def away (n rank : Nat) : Nat := ((magnitudeAt rank : Int) - n).natAbs

-- No magnitude is nearer, and halfway between two of them the place is even.
structure RankNear (n rank : Nat) : Prop where
  least : ∀ other, away n rank ≤ away n other
  even : ∀ other, away n other = away n rank → other ≠ rank → rank % 2 = 0

section
variable {n rank other chosen : Nat}

theorem away_lt_below (low : magnitudeAt rank ≤ n) (below : other < rank) : away n rank < away n other := by
  have := magnitudeAt_strictMono below
  unfold away
  omega

theorem away_lt_above (high : n ≤ magnitudeAt rank) (above : rank < other) : away n rank < away n other := by
  have := magnitudeAt_strictMono above
  unfold away
  omega

-- Of the magnitudes on both sides of a number, the nearer one is nearest.
theorem rankNear_between (low : magnitudeAt rank ≤ n) (high : n ≤ magnitudeAt (rank + 1))
    (either : chosen = rank ∨ chosen = rank + 1)
    (nearer : away n chosen ≤ away n rank ∧ away n chosen ≤ away n (rank + 1))
    (tie : away n rank = away n (rank + 1) → chosen % 2 = 0) : RankNear n chosen := by
  have outer : ∀ other, other ≠ rank → other ≠ rank + 1 → away n chosen < away n other := by
    intro other notLow notHigh
    rcases Nat.lt_or_ge other rank with below | above
    · exact Nat.lt_of_le_of_lt nearer.1 (away_lt_below low below)
    · exact Nat.lt_of_le_of_lt nearer.2 (away_lt_above high (by omega))
  constructor
  · intro other
    by_cases isLow : other = rank
    · exact isLow ▸ nearer.1
    · by_cases isHigh : other = rank + 1
      · exact isHigh ▸ nearer.2
      · exact Nat.le_of_lt (outer other isLow isHigh)
  · intro other same different
    by_cases inner : other = rank ∨ other = rank + 1
    · rcases inner with rfl | rfl <;> rcases either with rfl | rfl
      · exact absurd rfl different
      · exact tie same
      · exact tie same.symm
      · exact absurd rfl different
    · exact absurd same (Nat.ne_of_gt (outer other (fun isLow => inner (.inl isLow)) fun isHigh => inner (.inr isHigh)))

theorem rankNear_itself (itself : magnitudeAt rank = n) : RankNear n rank := by
  have next := magnitudeAt_lt_succ rank
  have here : away n rank = 0 := by
    rw [away, itself, Int.sub_self, Int.natAbs_zero]
  refine rankNear_between (Nat.le_of_eq itself) (itself ▸ Nat.le_of_lt next) (.inl rfl) ⟨Nat.le_refl _, ?_⟩ fun same => ?_
  · exact here ▸ Nat.zero_le _
  · rw [here] at same
    unfold away at same
    omega

end

theorem nearestRank_near (n : Nat) : RankNear n (nearestRank n 1) := by
  by_cases divides : 2 ^ (n.log2 - 52) ∣ n
  · exact rankNear_itself (magnitudeAt_nearestRank divides)
  · have large : binade ≤ n := by
      by_contra small
      rw [shift_eq_zero (Nat.lt_of_not_le small)] at divides
      exact divides (Nat.one_dvd n)
    have ⟨least, most⟩ := kept_bounds large
    generalize few : n.log2 - 52 = shift at least most
    have whole := Nat.div_add_mod' n (2 ^ shift)
    have rest := Nat.mod_lt n (Nat.two_pow_pos shift)
    have below := magnitudeAt_place least (Nat.le_of_lt most) shift
    have above := magnitudeAt_place (Nat.le_succ_of_le least) most shift
    rw [Nat.succ_mul, ← below, Nat.succ_eq_add_one, ← Nat.add_assoc] at above
    -- a binade has an even number of places
    have parity : (shift * binade + n / 2 ^ shift) % 2 = n / 2 ^ shift % 2 := by
      rw [Nat.add_mod, Nat.mul_mod, show binade % 2 = 0 from rfl, Nat.mul_zero, Nat.zero_mod, Nat.zero_add, Nat.mod_mod]
    rw [← below] at whole
    rw [nearestRank_eq few]
    split
    · exact rankNear_between (by omega) (by omega) (.inr rfl) (by unfold away; omega) (by unfold away; omega)
    · rw [Nat.add_zero]
      exact rankNear_between (by omega) (by omega) (.inl rfl) (by unfold away; omega) (by unfold away; omega)

-- A double that a value of so many units is rounded to: none is nearer, and halfway between two
-- of them it is the even one.
structure Rounds (x : Binary64) (u : Int) : Prop where
  nearest : ∀ y : Binary64, (x.units - u).natAbs ≤ (y.units - u).natAbs
  even : ∀ y : Binary64, (y.units - u).natAbs = (x.units - u).natAbs → y.units ≠ x.units → x.rank.val % 2 = 0

-- The rank with the sign: doubles are in the order of their places.
def place (x : Binary64) : Int := if x.negative then -(x.rank.val : Int) else x.rank.val

theorem units_lt_iff {x y : Binary64} : x.units < y.units ↔ x.place < y.place := by
  have below := magnitudeAt_strictMono.lt_iff_lt (a := x.rank.val) (b := y.rank.val)
  have above := magnitudeAt_strictMono.lt_iff_lt (a := y.rank.val) (b := x.rank.val)
  have left := magnitudeAt_strictMono.lt_iff_lt (a := 0) (b := x.rank.val)
  have right := magnitudeAt_strictMono.lt_iff_lt (a := 0) (b := y.rank.val)
  rw [magnitudeAt_zero] at left right
  unfold units place magnitude
  split <;> split <;> omega

theorem natAbs_place (x : Binary64) : x.place.natAbs = x.rank.val := by
  unfold place
  omega

theorem exists_place {p : Int} (small : p.natAbs < 9218868437227405312) : ∃ x : Binary64, x.place = p := by
  refine ⟨⟨decide (p < 0), ⟨p.natAbs, small⟩⟩, ?_⟩
  unfold place
  simp only [decide_eq_true_eq]
  omega

theorem rounds_of_rankNear {x : Binary64} {n : Nat} (near : RankNear n x.rank) :
    Rounds x (if x.negative then -(n : Int) else n) := by
  constructor
  · intro y
    have least := near.least y.rank
    unfold away at least
    unfold units magnitude
    split <;> split <;> omega
  · intro y same different
    have least := near.least y.rank
    have even := near.even y.rank
    -- of two zeros with different signs neither is further away
    have zero := near.least 0
    unfold away at least even zero
    rw [magnitudeAt_zero] at zero
    unfold units magnitude at same different
    by_cases alike : y.rank.val = x.rank.val
    · rw [alike] at same different
      omega
    · refine even ?_ alike
      split at same <;> split at same <;> omega

namespace Rounds
variable {x y : Binary64} {u : Int}

-- Two doubles that a value lies halfway between are neighbours, and only one of these is even.
theorem not_lt (first : Rounds x u) (second : Rounds y u) : ¬x.units < y.units := by
  intro less
  have same : (x.units - u).natAbs = (y.units - u).natAbs := Nat.le_antisymm (first.nearest y) (second.nearest x)
  have order := units_lt_iff.1 less
  by_cases neighbours : x.place + 1 = y.place
  · have left := first.even y same.symm (Int.ne_of_gt less)
    have right := second.even x same (Int.ne_of_lt less)
    rw [← natAbs_place] at left right
    omega
  · have low := x.rank.isLt
    have high := y.rank.isLt
    rw [← natAbs_place] at low high
    obtain ⟨z, place⟩ := exists_place (p := x.place + 1) (by omega)
    have after : x.units < z.units := units_lt_iff.2 (by omega)
    have before : z.units < y.units := units_lt_iff.2 (by omega)
    have := first.nearest z
    omega

theorem unique (first : Rounds x u) (second : Rounds y u) : x.units = y.units :=
  Int.le_antisymm (Int.not_lt.1 (second.not_lt first)) (Int.not_lt.1 (first.not_lt second))

theorem congr (rounds : Rounds x u) (same : y.units = x.units) : Rounds y u := by
  have rank : y.rank.val = x.rank.val := by
    have magnitude := congrArg Int.natAbs same
    rw [natAbs_units, natAbs_units] at magnitude
    exact magnitudeAt_strictMono.injective magnitude
  constructor
  · rw [same]
    exact rounds.nearest
  · rw [same, rank]
    exact rounds.even

theorem exact_ (rounds : Rounds x u) (double : y.units = u) : x.units = u := by
  have none_ := rounds.nearest y
  rw [double, Int.sub_self, Int.natAbs_zero] at none_
  omega

end Rounds
end Binary64

namespace Number
open Binary64

theorem nearest_rounds (n : Number) : Rounds n.nearest n.units := by
  cases n with
  | float x => exact rounds_of_rankNear (rankNear_itself rfl)
  | whole i =>
    have near : RankNear (i.value.natAbs * unitsPerOne) (whole i).nearest.rank := nearestRank_near _
    rw [units_whole]
    exact rounds_of_rankNear near

-- From 2^63 on, the whole numbers that are doubles are the multiples of 2^11.
theorem dvd_of_double {i : Whole64} (large : 9223372036854775808 ≤ i.value) {x : Binary64}
    (same : x.units = (whole i).units) :
    2048 ∣ i.value := by
  obtain ⟨k, power⟩ := exists_unitsPerOne
  have magnitude : magnitudeAt x.rank = i.value.natAbs * 2 ^ k := by
    have both := congrArg Int.natAbs same
    rwa [natAbs_units, units, Int.natAbs_mul, Int.natAbs_natCast, power] at both
  have far : 2 ^ (63 + k) ≤ magnitudeAt x.rank := by
    rw [magnitude, Nat.pow_add]
    exact Nat.mul_le_mul_right _ (by omega)
  have divides := dvd_magnitudeAt far
  rw [magnitude, Nat.pow_add] at divides
  exact Int.natCast_dvd.2 (Nat.dvd_of_mul_dvd_mul_right (Nat.two_pow_pos k) divides)

theorem nearest_units_of_dvd {i : Whole64} (large : 9223372036854775808 ≤ i.value) (divides : 2048 ∣ i.value) :
    (whole i).nearest.units = (whole i).units := by
  obtain ⟨k, power⟩ := exists_unitsPerOne
  have low : i.value.natAbs ≠ 0 := by omega
  have bits : i.value.natAbs.log2 = 63 := by
    have := natAbs_lt i
    exact (Nat.log2_eq_iff low).2 ⟨by omega, by omega⟩
  have magnitude : (whole i).nearest.magnitude = i.value.natAbs * unitsPerOne := by
    refine magnitudeAt_nearestRank ?_
    rw [power, log2_scaled low, bits, Nat.add_comm, Nat.add_sub_assoc (by decide), Nat.add_comm, Nat.pow_add]
    exact Nat.mul_dvd_mul_right (Int.natCast_dvd.1 divides) _
  rw [units_whole, ← magnitude]
  rfl

end Number
end TwinShape
