import TwinShape.Decimal.Shortest

namespace TwinShape

structure Significant (cs : List Char) : Prop where
  each : ∀ c ∈ cs, c.isDigit = true
  first : ∃ c rest, cs = c :: rest ∧ c ≠ '0'

theorem significant_toDigits {n : Nat} (some_ : n ≠ 0) : Significant (Nat.toDigits 10 n) := by
  refine ⟨fun c member => Nat.isDigit_of_mem_toDigits (by decide) (by decide) member, ?_⟩
  induction n using Nat.strongRecOn with
  | ind n ih =>
    rw [Nat.toDigits_eq_if (by decide)]
    split
    · rename_i small
      refine ⟨n.digitChar, [], rfl, ?_⟩
      have each : ∀ d : Fin 10, d.val ≠ 0 → d.val.digitChar ≠ '0' := by decide
      exact each ⟨n, small⟩ some_
    · obtain ⟨c, rest, same, counts⟩ := ih (n / 10) (by omega) (by omega)
      exact ⟨c, rest ++ [(n % 10).digitChar], by rw [same]; rfl, counts⟩

namespace Decimal

theorem significant_ofNat {n : Nat} (some_ : n ≠ 0) (exponent : Int) : Significant (ofNat n exponent).digits := by
  obtain ⟨each, c, rest, same, counts⟩ := significant_toDigits some_
  change Significant ((Nat.toDigits 10 n).reverse.dropWhile (· == '0')).reverse
  have kept : ∃ more, (Nat.toDigits 10 n).reverse.dropWhile (· == '0') = more ++ [c] := by
    have last : [c].dropWhile (· == '0') = [c] := List.dropWhile_cons_of_neg (by rw [beq_iff_eq]; exact counts)
    rw [same, List.reverse_cons, List.dropWhile_append]
    split
    · exact ⟨[], last⟩
    · exact ⟨_, rfl⟩
  refine ⟨fun d member => each d ?_, ?_⟩
  · exact List.mem_reverse.1 ((List.dropWhile_sublist _).subset (List.mem_reverse.1 member))
  · obtain ⟨more, ends⟩ := kept
    rw [ends, List.reverse_append]
    exact ⟨c, more.reverse, rfl, counts⟩

end Decimal

namespace Binary64
variable {rank : Nat} {k : Int}

theorem unitsPerOne_pos : 0 < unitsPerOne := by
  have shifted : unitsPerOne = 2 ^ 1074 := Nat.one_shiftLeft 1074
  exact shifted ▸ Nat.two_pow_pos 1074

theorem neighboursOn_pos (tieUp : Bool) (above : (floorOn rank k).1 ≠ 0) :
    (neighboursOn tieUp rank k).1 ≠ 0 ∧ (neighboursOn tieUp rank k).2 ≠ 0 := by
  unfold neighboursOn
  generalize floorOn rank k = floor at above
  obtain ⟨lower, rest, step⟩ := floor
  dsimp only at above ⊢
  split
  · exact ⟨above, Nat.succ_ne_zero _⟩
  · split
    · exact ⟨Nat.succ_ne_zero _, above⟩
    · split
      · exact ⟨Nat.succ_ne_zero _, above⟩
      · exact ⟨above, Nat.succ_ne_zero _⟩

-- Of the grids that are tried, only the last one is used without a look at its neighbours.
theorem significant_refine (tieUp : Bool) (fuel : Nat) (k : Int) (above : (floorOn rank (k - fuel)).1 ≠ 0) :
    Significant (refine tieUp rank fuel k).digits := by
  induction fuel generalizing k with
  | zero =>
    have above : (floorOn rank k).1 ≠ 0 := by simpa using above
    exact Decimal.significant_ofNat (neighboursOn_pos tieUp above).1 k
  | succ fuel ih =>
    rw [refine]
    dsimp only
    split
    · rename_i near
      rw [Bool.and_eq_true, bne_iff_ne] at near
      exact Decimal.significant_ofNat near.1 k
    · split
      · rename_i far
        rw [Bool.and_eq_true, bne_iff_ne] at far
        exact Decimal.significant_ofNat far.1 k
      · refine ih (k - 1) ?_
        have same : k - 1 - (fuel : Int) = k - ((fuel + 1 : Nat) : Int) := by omega
        rwa [same]

theorem floorOn_firstGrid (some_ : magnitudeAt rank ≠ 0) : (floorOn rank (firstGrid rank - 17)).1 ≠ 0 := by
  have one := unitsPerOne_pos
  unfold floorOn firstGrid
  dsimp only
  generalize magnitudeAt rank = m at some_ ⊢
  generalize unitsPerOne = u at one ⊢
  have enough : ∀ k : Int, u * 10 ^ k.toNat ≤ m * 10 ^ (-k).toNat → m * 10 ^ (-k).toNat / (u * 10 ^ k.toNat) ≠ 0 := by
    intro k few
    exact Nat.ne_of_gt (Nat.div_pos few (Nat.mul_pos one (Nat.pow_pos (by decide))))
  refine enough _ ?_
  have power : ∀ n : Nat, 0 < 10 ^ n := fun n => Nat.pow_pos (by decide)
  split
  · rename_i large
    obtain ⟨digits, length⟩ : ∃ digits, (Nat.toDigits 10 (m / u)).length = digits + 1 :=
      Nat.exists_eq_succ_of_ne_zero (Nat.ne_of_gt Nat.length_toDigits_pos)
    have least : 10 ^ digits ≤ m / u := by
      cases digits with
      | zero => exact Nat.div_pos large one
      | succ digits =>
        refine Nat.le_of_not_lt fun short => ?_
        have shorter := (Nat.length_toDigits_le_iff (by decide) (Nat.succ_pos digits)).2 short
        omega
    rw [length]
    have low : ((digits + 1 : Nat) - 1 - 17 : Int).toNat ≤ digits := by omega
    calc u * 10 ^ ((digits + 1 : Nat) - 1 - 17 : Int).toNat
        ≤ u * 10 ^ digits := Nat.mul_le_mul_left u (Nat.pow_le_pow_right (by decide) low)
      _ ≤ u * (m / u) := Nat.mul_le_mul_left u least
      _ ≤ m := Nat.mul_div_le m u
      _ ≤ m * 10 ^ (-((digits + 1 : Nat) - 1 - 17 : Int)).toNat := Nat.le_mul_of_pos_right m (power _)
  · have short := (Nat.length_toDigits_le_iff (b := 10) (n := u / m) (by decide) Nat.length_toDigits_pos).1 (Nat.le_refl _)
    generalize (Nat.toDigits 10 (u / m)).length = digits at short
    have below : u ≤ 10 ^ digits * m := Nat.le_of_lt ((Nat.div_lt_iff_lt_mul (Nat.pos_of_ne_zero some_)).1 short)
    have up : (1 - (digits : Int) - 17).toNat = 0 := by omega
    have down : digits ≤ (-(1 - (digits : Int) - 17)).toNat := by omega
    rw [up, Nat.pow_zero, Nat.mul_one]
    calc u ≤ 10 ^ digits * m := below
      _ = m * 10 ^ digits := Nat.mul_comm _ _
      _ ≤ m * 10 ^ (-(1 - (digits : Int) - 17)).toNat := Nat.mul_le_mul_left m (Nat.pow_le_pow_right (by decide) down)

theorem significant_shortest (tieUp : Bool) (some_ : magnitudeAt rank ≠ 0) : Significant (shortest tieUp rank).digits :=
  significant_refine tieUp 17 (firstGrid rank) (floorOn_firstGrid some_)

end Binary64
end TwinShape
