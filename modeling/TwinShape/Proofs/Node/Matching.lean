import TwinShape.Node.Literal
import TwinShape.Proofs.Decimal.Nearest

namespace TwinShape
open Binary64

-- Two numbers that are told apart by their values, but not by their nearest doubles.
structure Number.Blur (m n : Number) : Prop where
  different : m.units ≠ n.units
  shared : ∃ x : Binary64, x.Rounds m.units ∧ x.Rounds n.units
  large : 2 ^ 53 * unitsPerOne ≤ m.units.natAbs ∧ 2 ^ 53 * unitsPerOne ≤ n.units.natAbs
  inexact : ¬∃ x y : Binary64, x.units = m.units ∧ y.units = n.units

namespace Number

theorem nearest_eq_iff {m n : Number} : m.nearest.units = n.nearest.units ↔ ∃ x : Binary64, x.Rounds m.units ∧
    x.Rounds n.units := by
  constructor
  · intro same
    exact ⟨m.nearest, m.nearest_rounds, n.nearest_rounds.congr same⟩
  · rintro ⟨x, left, right⟩
    rw [m.nearest_rounds.unique left, n.nearest_rounds.unique right]

theorem nearest_congr {m n : Number} (equal : m.units = n.units) : m.nearest.units = n.nearest.units :=
  m.nearest_rounds.unique (equal ▸ n.nearest_rounds)

-- Numbers below 2^53 are their own nearest doubles, and those of no others.
theorem large_nearest_iff {n : Number} : 2 ^ 53 * unitsPerOne ≤ n.nearest.units.natAbs ↔
    2 ^ 53 * unitsPerOne ≤ n.units.natAbs := by
  rw [← Nat.not_lt, ← Nat.not_lt, not_iff_not]
  constructor
  · intro small
    rwa [(nearest_units_eq_iff small).1 rfl]
  · intro small
    rwa [(nearest_units_eq_iff small).2 rfl]

theorem blur_of_nearest {m n : Number} (same : m.nearest.units = n.nearest.units) (different : m.units ≠ n.units) :
    m.Blur n := by
  have far : 2 ^ 53 * unitsPerOne ≤ m.units.natAbs := by
    by_contra small
    have itself : m.nearest.units = m.units := (nearest_units_eq_iff (Nat.lt_of_not_le small)).2 rfl
    rw [itself, eq_comm, nearest_units_eq_iff (Nat.lt_of_not_le small)] at same
    exact different same.symm
  refine ⟨different, nearest_eq_iff.1 same, ⟨far, ?_⟩, ?_⟩
  · rwa [← large_nearest_iff, ← same, large_nearest_iff]
  · rintro ⟨x, y, left, right⟩
    rw [m.nearest_rounds.exact_ left, n.nearest_rounds.exact_ right] at same
    exact different same

end Number

namespace Literal

def number? (l : Literal) : Option Number :=
  match l.toJson with
  | .number n => some n
  | _ => none

theorem holds_number (left : number? l = some m) (n : Number) :
    l.holds (.number n) = (m.nearest.units == n.nearest.units) := by
  cases l <;> cases left <;> rfl

inductive Equals : Literal → Json → Prop
  | null : Equals .null .null
  | bool : Equals (.bool b) (.bool b)
  | string : Equals (.string s) (.string s)
  | number (left : l.number? = some m) (equal : m.units = n.units) : Equals l (.number n)

inductive Blurs : Literal → Json → Prop
  | number (left : l.number? = some m) (blur : m.Blur n) : Blurs l (.number n)

-- A literal matches the documents that it equals, and besides those only whole numbers from
-- 2^53 on that have the same nearest double.
theorem holds_as_doubles (l : Literal) (v : Json) : l.holds v = true ↔ l.Equals v ∨ l.Blurs v := by
  constructor
  · intro holds
    have numbers : ∀ m n, l.number? = some m → v = .number n → l.Equals v ∨ l.Blurs v := by
      rintro m n left rfl
      rw [holds_number left, beq_iff_eq] at holds
      by_cases equal : m.units = n.units
      · exact .inl (.number left equal)
      · exact .inr (.number left (Number.blur_of_nearest holds equal))
    cases l with
    | null =>
      cases v with
      | null => exact .inl .null
      | _ => cases holds
    | bool a =>
      cases v with
      | bool b =>
        rw [show a = b from beq_iff_eq.1 holds]
        exact .inl .bool
      | _ => cases holds
    | string a =>
      cases v with
      | string b =>
        rw [show a = b from beq_iff_eq.1 holds]
        exact .inl .string
      | _ => cases holds
    | int i =>
      cases v with
      | number n => exact numbers _ n rfl rfl
      | _ => cases holds
    | float x =>
      cases v with
      | number n => exact numbers _ n rfl rfl
      | _ => cases holds
  · rintro (equals | ⟨left, blur⟩)
    · cases equals with
      | null => rfl
      | bool => exact beq_self_eq_true _
      | string => exact beq_self_eq_true _
      | number left equal =>
        rw [holds_number left, beq_iff_eq]
        exact Number.nearest_congr equal
    · rw [holds_number left, beq_iff_eq]
      exact Number.nearest_eq_iff.2 blur.shared

-- Whole numbers from 2^53 on are not all doubles.
theorem holds_neighbour : ¬∀ (l : Literal) (v : Json), l.holds v = true ↔ l.Equals v := by
  intro exact_
  have same : holds (.int ⟨9007199254740993, by decide, by decide⟩) (.number (.whole ⟨9007199254740992, by decide, by decide⟩)) = true := by
    decide +kernel
  cases (exact_ _ _).1 same with
  | number left equal =>
    cases left
    exact absurd equal (by decide +kernel)

end Literal
end TwinShape
