import Mathlib.Tactic.Ring
import TwinShape.Json.Value
import TwinShape.Proofs.Decimal.Shortest

namespace TwinShape
namespace Binary64

theorem magnitudeAt_place {kept : Nat} (least : binade ≤ kept) (most : kept ≤ 2 * binade) (shift : Nat) :
    magnitudeAt (shift * binade + kept) = kept * 2 ^ shift := by
  have pos : 0 < binade := by decide
  have above : ¬shift * binade + kept < binade := by omega
  unfold magnitudeAt
  rw [if_neg above, Nat.shiftLeft_eq]
  rcases Nat.lt_or_eq_of_le most with inside | rfl
  · have split : shift * binade + kept = (kept - binade) + binade * (shift + 1) := by
      rw [Nat.mul_succ, Nat.mul_comm]
      omega
    have small : kept - binade < binade := by omega
    rw [split, Nat.add_mul_mod_self_left, Nat.mod_eq_of_lt small, Nat.add_mul_div_left _ _ pos, Nat.div_eq_of_lt small,
      Nat.add_sub_cancel' least, Nat.zero_add, Nat.add_sub_cancel]
  · have split : shift * binade + 2 * binade = 0 + binade * (shift + 2) := by
      rw [Nat.mul_add, Nat.mul_comm shift]
      omega
    rw [split, Nat.add_mul_mod_self_left, Nat.add_mul_div_left _ _ pos, Nat.zero_mod, Nat.zero_div, Nat.add_zero, Nat.zero_add,
      show shift + 2 - 1 = shift + 1 from rfl, Nat.pow_succ]
    ring

theorem kept_bounds {n : Nat} (large : binade ≤ n) :
    binade ≤ n / 2 ^ (n.log2 - 52) ∧ n / 2 ^ (n.log2 - 52) < 2 * binade := by
  have some_ : n ≠ 0 := by
    rintro rfl
    exact absurd large (by decide)
  have bits : 52 ≤ n.log2 := (Nat.le_log2 some_).2 large
  have low : 2 ^ n.log2 ≤ n := Nat.log2_self_le some_
  have high : n < 2 ^ (n.log2 + 1) := Nat.lt_log2_self
  have pos := Nat.two_pow_pos (n.log2 - 52)
  refine ⟨(Nat.le_div_iff_mul_le pos).2 ?_, (Nat.div_lt_iff_lt_mul pos).2 ?_⟩
  · calc binade * 2 ^ (n.log2 - 52) = 2 ^ (52 + (n.log2 - 52)) := (Nat.pow_add 2 52 _).symm
      _ = 2 ^ n.log2 := by rw [Nat.add_sub_cancel' bits]
      _ ≤ n := low
  · calc n < 2 ^ (n.log2 + 1) := high
      _ = 2 ^ (53 + (n.log2 - 52)) := by rw [show n.log2 + 1 = 53 + (n.log2 - 52) by omega]
      _ = 2 * binade * 2 ^ (n.log2 - 52) := Nat.pow_add 2 53 _

theorem shift_eq_zero {n : Nat} (small : n < binade) : n.log2 - 52 = 0 := by
  by_cases none_ : n = 0
  · rw [none_]
    rfl
  · have := (Nat.log2_lt none_).2 (show n < 2 ^ 52 from small)
    omega

theorem nearestRank_eq {n shift : Nat} (few : n.log2 - 52 = shift) :
    nearestRank n 1 = shift * binade + n / 2 ^ shift +
      if 2 ^ shift < 2 * (n % 2 ^ shift) ∨ (2 ^ shift = 2 * (n % 2 ^ shift) ∧ n / 2 ^ shift % 2 = 1) then 1 else 0 := by
  unfold nearestRank
  dsimp only
  rw [Nat.div_one, Nat.one_shiftLeft, few]

theorem nearestRank_one (n : Nat) : ∃ up, (up = 0 ∨ up = 1) ∧ (2 ^ (n.log2 - 52) ∣ n → up = 0) ∧
    nearestRank n 1 = (n.log2 - 52) * binade + (n / 2 ^ (n.log2 - 52) + up) := by
  rw [nearestRank_eq rfl]
  refine ⟨_, ?_, fun divides => ?_, Nat.add_assoc _ _ _⟩
  · split
    · exact .inr rfl
    · exact .inl rfl
  · have pos := Nat.two_pow_pos (n.log2 - 52)
    rw [Nat.mod_eq_zero_of_dvd divides]
    exact if_neg (by omega)

theorem magnitudeAt_nearestRank {n : Nat} (divides : 2 ^ (n.log2 - 52) ∣ n) : magnitudeAt (nearestRank n 1) = n := by
  obtain ⟨up, -, exact_, same⟩ := nearestRank_one n
  rw [same, exact_ divides, Nat.add_zero]
  by_cases large : binade ≤ n
  · have ⟨least, most⟩ := kept_bounds large
    rw [magnitudeAt_place least (Nat.le_of_lt most), Nat.div_mul_cancel divides]
  · rw [shift_eq_zero (Nat.lt_of_not_le large), Nat.zero_mul, Nat.pow_zero, Nat.div_one, Nat.zero_add]
    exact if_pos (Nat.lt_of_not_le large)

theorem leading_le_magnitudeAt {n : Nat} (large : binade ≤ n) : 2 ^ n.log2 ≤ magnitudeAt (nearestRank n 1) := by
  have bits : 52 ≤ n.log2 := (Nat.le_log2 (by rintro rfl; exact absurd large (by decide))).2 large
  obtain ⟨up, choice, -, same⟩ := nearestRank_one n
  have ⟨least, most⟩ := kept_bounds large
  rw [same, magnitudeAt_place (by omega) (by omega)]
  calc 2 ^ n.log2 = 2 ^ (52 + (n.log2 - 52)) := by rw [Nat.add_sub_cancel' bits]
    _ = binade * 2 ^ (n.log2 - 52) := Nat.pow_add 2 52 _
    _ ≤ _ := Nat.mul_le_mul_right _ (by omega)

theorem log2_scaled {n : Nat} (some_ : n ≠ 0) (k : Nat) : (n * 2 ^ k).log2 = n.log2 + k := by
  have pos := Nat.two_pow_pos k
  rw [Nat.log2_eq_iff (Nat.mul_ne_zero some_ (Nat.ne_of_gt pos)), Nat.add_right_comm, Nat.pow_add, Nat.pow_add _ (n.log2 + 1)]
  exact ⟨Nat.mul_le_mul_right _ (Nat.log2_self_le some_), Nat.mul_lt_mul_of_pos_right Nat.lt_log2_self pos⟩

theorem magnitudeAt_scaled {n one k : Nat} (power : one = 2 ^ k) (small : n < 2 ^ 53) :
    magnitudeAt (nearestRank (n * one) 1) = n * one := by
  subst power
  refine magnitudeAt_nearestRank ?_
  by_cases none_ : n = 0
  · rw [none_, Nat.zero_mul]
    exact Nat.dvd_zero _
  · have bits : n.log2 < 53 := (Nat.log2_lt none_).2 small
    rw [log2_scaled none_]
    exact Nat.dvd_mul_left_of_dvd (Nat.pow_dvd_pow 2 (by omega)) n

theorem le_magnitudeAt_scaled {n one k : Nat} (power : one = 2 ^ k) (large : 2 ^ 53 ≤ n) :
    2 ^ 53 * one ≤ magnitudeAt (nearestRank (n * one) 1) := by
  subst power
  have some_ : n ≠ 0 := by
    rintro rfl
    exact absurd large (by decide)
  have bits : 53 ≤ n.log2 := (Nat.le_log2 some_).2 large
  have many : binade ≤ n * 2 ^ k :=
    calc binade ≤ n := Nat.le_trans (by decide) large
      _ ≤ n * 2 ^ k := Nat.le_mul_of_pos_right n (Nat.two_pow_pos k)
  calc 2 ^ 53 * 2 ^ k = 2 ^ (53 + k) := (Nat.pow_add 2 53 k).symm
    _ ≤ 2 ^ (n * 2 ^ k).log2 := Nat.pow_le_pow_right (by decide) (by rw [log2_scaled some_]; omega)
    _ ≤ _ := leading_le_magnitudeAt many

theorem exists_unitsPerOne : ∃ k, unitsPerOne = 2 ^ k := by
  have shifted : ∀ k, ∃ j, 1 <<< k = 2 ^ j := fun k => ⟨k, Nat.one_shiftLeft k⟩
  exact shifted 1074

theorem natAbs_units (x : Binary64) : x.units.natAbs = x.magnitude := by
  unfold units
  split <;> simp

end Binary64

namespace Number
open Binary64

theorem units_whole (i : Whole64) : (whole i).units =
    if (whole i).nearest.negative then -((i.value.natAbs * unitsPerOne : Nat) : Int) else (i.value.natAbs * unitsPerOne : Nat) := by
  have sign : (whole i).nearest.negative = decide (i.value < 0) := rfl
  rw [sign, units, Int.natCast_mul]
  clear sign
  generalize (unitsPerOne : Int) = one
  by_cases negative : i.value < 0
  · rw [if_pos (decide_eq_true negative), ← Int.neg_mul]
    congr 1
    omega
  · rw [if_neg (by simpa using negative)]
    congr 1
    omega

theorem nearest_units {i : Whole64} (small : i.value.natAbs < 2 ^ 53) : (whole i).nearest.units = (whole i).units := by
  obtain ⟨k, power⟩ := exists_unitsPerOne
  have same : (whole i).nearest.magnitude = i.value.natAbs * unitsPerOne := magnitudeAt_scaled power small
  rw [units_whole, ← same]
  rfl

-- Being equal to a small number is the same for numbers and for their doubles.
theorem nearest_units_eq_iff {n : Number} {u : Int} (small : u.natAbs < 2 ^ 53 * unitsPerOne) :
    n.nearest.units = u ↔ n.units = u := by
  cases n with
  | float x => exact Iff.rfl
  | whole i =>
    by_cases few : i.value.natAbs < 2 ^ 53
    · rw [nearest_units few]
    · obtain ⟨k, power⟩ := exists_unitsPerOne
      have least : 2 ^ 53 * unitsPerOne ≤ (whole i).nearest.magnitude := le_magnitudeAt_scaled power (Nat.le_of_not_lt few)
      refine iff_of_false (fun same => ?_) fun same => ?_
      · rw [← same, natAbs_units] at small
        exact absurd small (Nat.not_lt.2 least)
      · have many : 2 ^ 53 * unitsPerOne ≤ u.natAbs := by
          rw [← same, units, Int.natAbs_mul]
          exact Nat.mul_le_mul_right _ (Nat.le_of_not_lt few)
        exact absurd small (Nat.not_lt.2 many)

end Number
end TwinShape
