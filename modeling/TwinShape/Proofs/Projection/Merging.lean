import TwinShape.Proofs.Projection.Simulation

namespace TwinShape

def Inherited (result : Node → Node → Prop) (P : Nat → Nat → Prop) (key : String)
    (e f : Property Node × Option Nat) : Prop :=
  e.1.name = key ∧ Property.Both result e.1 f.1 ∧ ∃ i j, e.2 = some i ∧ f.2 = some j ∧ P i j

def Contributed (result : Node → Node → Prop) (key : String)
    (e f : Property Node × Option Nat) : Prop :=
  e.1.name = key ∧ Property.Both result e.1 f.1

def Earlier (o o' i j : Nat) : Prop := i < o ∧ j < o'

def UpTo (o o' i j : Nat) : Prop := i ≤ o ∧ j ≤ o' ∧ (i = o ↔ j = o')

namespace Merge
variable {result : Node → Node → Prop} {m m' : Merge} {o o' : Nat}

theorem rel_upTo (before : Table.Rel (Inherited result (Earlier o o')) m m') :
    Table.Rel (Inherited result (UpTo o o')) m m' := by
  refine before.weaken fun _ _ _ ⟨named, both, i, j, hi, hj, lt, lt'⟩ => ?_
  refine ⟨named, both, i, j, hi, hj, Nat.le_of_lt lt, Nat.le_of_lt lt', ?_⟩
  omega

theorem rel_earlier (before : Table.Rel (Inherited result (UpTo o o')) m m') :
    Table.Rel (Inherited result (Earlier (o + 1) (o' + 1))) m m' :=
  before.weaken fun _ _ _ ⟨named, both, i, j, hi, hj, le, le', _⟩ =>
    ⟨named, both, i, j, hi, hj, Nat.lt_succ_of_le le, Nat.lt_succ_of_le le'⟩

-- A parent that is left out on one side only moves the origins on that side.
theorem rel_later {p p' : Nat} (before : Table.Rel (Inherited result (Earlier o o')) m m')
    (le : o ≤ p) (le' : o' ≤ p') : Table.Rel (Inherited result (Earlier p p')) m m' :=
  before.weaken fun _ _ _ ⟨named, both, i, j, hi, hj, lt, lt'⟩ =>
    ⟨named, both, i, j, hi, hj, Nat.lt_of_lt_of_le lt le, Nat.lt_of_lt_of_le lt' le'⟩

theorem same_eq {strict : Prop} {p q p' q' : Property Node}
    (same : strict → ∀ {a b a' b'}, result a b → result a' b' → a.same a' = b.same b')
    (exact_ : strict) (first : Property.Both result p q) (second : Property.Both result p' q') :
    p.same p' = q.same q' := by
  obtain ⟨name, values⟩ := first
  obtain ⟨name', values₂⟩ := second
  simp [Property.same, sameProperties, same exact_ values values₂]

theorem inherit_both {strict : Prop}
    (same : strict → ∀ {a b a' b'}, result a b → result a' b' → a.same a' = b.same b')
    (properties : List.Forall₂ (Property.Both result) ps qs)
    (before : Table.Rel (Inherited result (UpTo o o')) m m') :
    SameOutcome strict (Table.Rel (Inherited result (UpTo o o'))) (m.inherit o ps) (m'.inherit o' qs) := by
  induction properties generalizing m m' with
  | nil => exact before
  | @cons p q ps qs head rest ih =>
    have added : Inherited result (UpTo o o') p.name (p, some o) (q, some o') :=
      ⟨rfl, head, o, o', rfl, rfl, Nat.le_refl _, Nat.le_refl _, Iff.intro (fun _ => rfl) fun _ => rfl⟩
    have found := before.get? p.name
    unfold inherit
    rw [← head.name]
    cases first : m.get? p.name with
    | none =>
      cases second : m'.get? p.name with
      | none => exact ih (before.set added)
      | some f => rw [first, second] at found; cases found
    | some e =>
      cases second : m'.get? p.name with
      | none => rw [first, second] at found; cases found
      | some f =>
        rw [first, second] at found
        obtain ⟨existing, from_⟩ := e
        obtain ⟨existing', from'⟩ := f
        obtain ⟨_, both, i, j, rfl, rfl, _, _, together⟩ := (Option.rel_some_some).1 found
        dsimp only
        by_cases here : i = o
        · rw [if_pos (congrArg some here), if_pos (congrArg some (together.1 here))]
          exact ih (before.set added)
        · have there : ¬j = o' := fun h => here (together.2 h)
          rw [if_neg (by simpa using here), if_neg (by simpa using there)]
          by_cases exact_ : strict
          · rw [← same_eq same exact_ both head]
            cases existing.same p with
            | true => exact ih before
            | false => exact fun _ => rfl
          · cases existing.same p with
            | false => exact .error_left exact_ _
            | true =>
              cases existing'.same q with
              | false => exact .error_right exact_ _
              | true => exact ih before

theorem keys_nodup_inherit {m after : Merge} (distinct : m.keys.Nodup) (o : Nat)
    (accepted : m.inherit o ps = .ok after) : after.keys.Nodup := by
  induction ps generalizing m with
  | nil => cases accepted; exact distinct
  | cons p rest ih =>
    unfold inherit at accepted
    split at accepted
    · split at accepted
      · exact ih (Table.nodup_keys_set distinct _ _) accepted
      · cases same : Property.same _ p with
        | true => rw [same] at accepted; exact ih distinct accepted
        | false => rw [same] at accepted; cases accepted
    · exact ih (Table.nodup_keys_set distinct _ _) accepted

theorem override_both (own : List.Forall₂ (Property.Both result) ps qs)
    (before : Table.Rel (Contributed result) m m') :
    Table.Rel (Contributed result) (m.override ps) (m'.override qs) := by
  induction own generalizing m m' with
  | nil => exact before
  | @cons p q ps qs head rest ih =>
    have added : Contributed result p.name (p, none) (q, none) := ⟨rfl, head⟩
    unfold override
    rw [List.foldl_cons, List.foldl_cons, ← head.name]
    exact ih (before.set added)

theorem keys_nodup_override {m : Merge} (distinct : m.keys.Nodup) (own : List (Property Node)) :
    (m.override own).keys.Nodup := by
  induction own generalizing m with
  | nil => exact distinct
  | cons p rest ih => exact ih (Table.nodup_keys_set distinct _ _)

theorem properties_both (merged : Table.Rel (Contributed result) m m') :
    List.Forall₂ (Property.Both result) m.properties m'.properties := by
  induction merged with
  | nil => exact .nil
  | cons head _ ih => exact .cons head.2.2 ih

theorem names_properties (merged : Table.Rel (Contributed result) m m') :
    m.properties.map (·.name) = m.keys := by
  induction merged with
  | nil => rfl
  | cons head _ ih => exact congrArg₂ List.cons head.2.1 ih

end Merge
end TwinShape
