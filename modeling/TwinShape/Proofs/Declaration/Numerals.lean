import TwinShape.Proofs.Decimal.Shortest
import TwinShape.Proofs.Declaration.Tokens

namespace TwinShape
open Script

theorem notPoint_of_digit {c : Char} (digit : c.isDigit = true) : (c != '.') = true := by
  rw [bne_iff_ne]
  rintro rfl
  cases digit

theorem isNumeral_whole (whole : isWhole cs = true) : isNumeral cs = true := by
  obtain ⟨c, rest, -, digits⟩ := isDigit_of_isWhole whole
  have pointless : cs.dropWhile (· != '.') = [] := by
    have behind : (cs ++ []).dropWhile (· != '.') = [].dropWhile (· != '.') :=
      List.dropWhile_append_of_pos fun d member => notPoint_of_digit (digits d member)
    rwa [List.append_nil] at behind
  unfold isNumeral
  rw [pointless]
  exact whole

theorem isNumeral_point (whole : isWhole cs = true) (digits : ∀ c ∈ fraction, c.isDigit = true)
    (some_ : fraction ≠ []) :
    isNumeral (cs ++ '.' :: fraction) = true := by
  obtain ⟨c, rest, -, own⟩ := isDigit_of_isWhole whole
  have before : ∀ d ∈ cs, (d != '.') = true := fun d member => notPoint_of_digit (own d member)
  have behind : (cs ++ '.' :: fraction).dropWhile (· != '.') = '.' :: fraction := by
    rw [List.dropWhile_append_of_pos before]
    rfl
  have taken : (cs ++ '.' :: fraction).takeWhile (· != '.') = cs := by
    rw [List.takeWhile_append_of_pos before]
    exact List.append_nil cs
  unfold isNumeral
  rw [behind]
  dsimp only
  rw [taken, whole, List.all_eq_true.2 digits, Bool.and_true, Bool.true_and, Bool.not_eq_true', List.isEmpty_eq_false_iff]
  exact some_

theorem Significant.isWhole (significant : Significant cs) : isWhole cs = true := by
  obtain ⟨each, c, rest, rfl, counts⟩ := significant
  refine Bool.or_eq_true_iff.2 (.inr (Bool.and_eq_true_iff.2 ⟨List.all_eq_true.2 each, ?_⟩))
  exact bne_iff_ne.2 counts

theorem Significant.append (significant : Significant cs) (more : ∀ c ∈ ds, c.isDigit = true) :
    Significant (cs ++ ds) := by
  obtain ⟨each, c, rest, rfl, counts⟩ := significant
  exact ⟨fun d member => (List.mem_append.1 member).elim (each d) (more d), c, rest ++ ds, rfl, counts⟩

theorem isDigit_zeros (n : Nat) : ∀ c ∈ FloatText.zeros n, c.isDigit = true := by
  intro c member
  cases (List.mem_replicate.1 member).2
  rfl

theorem isWhole_toDigits (n : Nat) : isWhole (Nat.toDigits 10 n) = true := by
  by_cases zero : n = 0
  · subst zero
    rw [Nat.toDigits_zero]
    rfl
  · exact (significant_toDigits zero).isWhole

-- The point falls behind the digits, between them or before them.
theorem isNumeral_positional {d : Decimal} (significant : Significant d.digits) :
    isNumeral (FloatText.plain.positionalText d) = true := by
  unfold FloatText.positionalText
  dsimp only
  split
  · have whole := (significant.append (isDigit_zeros d.exponent.toNat)).isWhole
    have pointless : (if FloatText.plain.pointZero = true then ['.', '0'] else []) = [] := rfl
    rw [pointless, List.append_nil]
    exact isNumeral_whole whole
  · rename_i negative
    split
    · rename_i inside
      obtain ⟨each, c, rest, same, counts⟩ := significant
      unfold Decimal.leading at inside ⊢
      obtain ⟨places, count⟩ : ∃ places, (d.exponent + (d.digits.length : Int) - 1 + 1).toNat = places + 1 :=
        Nat.exists_eq_succ_of_ne_zero (by omega)
      have fewer : places + 1 < d.digits.length := by omega
      rw [count]
      refine isNumeral_point (Significant.isWhole ⟨?_, ?_⟩) ?_ ?_
      · exact fun e member => each e (List.take_subset _ _ member)
      · rw [same]
        exact ⟨c, rest.take places, rfl, counts⟩
      · exact fun e member => each e (List.drop_subset _ _ member)
      · intro none_
        exact absurd (List.drop_eq_nil_iff.1 none_) (Nat.not_le.2 fewer)
    · obtain ⟨each, c, rest, same, counts⟩ := significant
      have zero : isWhole ['0'] = true := rfl
      refine isNumeral_point zero ?_ ?_
      · exact fun e member => (List.mem_append.1 member).elim (isDigit_zeros _ e) (each e)
      · rw [same]
        exact List.append_ne_nil_of_right_ne_nil _ (List.cons_ne_nil _ _)

theorem numeral_write (x : Binary64) : ∃ body, isNumeral body = true ∧
    (FloatText.plain.write x).toList = (if x.negative then ['-'] else []) ++ body := by
  unfold FloatText.write
  rw [String.toList_ofList]
  cases zero : x.magnitude == 0 with
  | true => exact ⟨['0'], rfl, rfl⟩
  | false =>
    have significant := Binary64.significant_shortest FloatText.plain.tieUp (beq_eq_false_iff_ne.1 zero)
    exact ⟨_, isNumeral_positional significant, rfl⟩

theorem numeral_toString (i : Int) : ∃ body, isNumeral body = true ∧
    (toString i).toList = (if i < 0 then ['-'] else []) ++ body := by
  have text : toString i = i.repr := rfl
  rw [text, Int.repr_eq_if]
  split
  · rename_i positive
    rw [if_neg (Int.not_lt.2 positive), Nat.repr_eq_ofList_toDigits, String.toList_ofList]
    exact ⟨_, isNumeral_whole (isWhole_toDigits _), rfl⟩
  · rename_i negative
    have digits : (-i).toNat.repr.toList = Nat.toDigits 10 (-i).toNat := by
      rw [Nat.repr_eq_ofList_toDigits, String.toList_ofList]
    rw [if_pos (Int.not_le.1 negative), String.toList_append, digits]
    exact ⟨Nat.toDigits 10 (-i).toNat, isNumeral_whole (isWhole_toDigits _), rfl⟩

end TwinShape
