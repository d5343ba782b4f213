import TwinShape.Node.Check
import TwinShape.Proofs.Decimal.Rounding
import TwinShape.Proofs.Node.Tree

namespace TwinShape

section
variable (engine : PatternEngine)

-- What a definition's check takes as the default of a node. Alternatives take what one of them
-- takes, and nothing is known of nodes that stand for something else.
inductive Node.Admits : Json → Node → Prop
  | string (matching : ∀ text finds, a.pattern = some text → engine text = .ok finds → finds s = true) :
      Admits (.string s) ⟨.string, a, o, r, m⟩
  | number : Admits (.number x) ⟨.number, a, o, r, m⟩
  | integer (whole : (Binary64.unitsPerOne : Int) ∣ x.units) : Admits (.number x) ⟨.integer, a, o, r, m⟩
  | boolean : Admits (.bool b) ⟨.boolean, a, o, r, m⟩
  | null : Admits .null ⟨.null, a, o, r, m⟩
  | constant (holds : l.holds v = true) : Admits v ⟨.constant l, a, o, r, m⟩
  | enumeration (member : l ∈ values) (holds : l.holds v = true) : Admits v ⟨.enumeration values naming, a, o, r, m⟩
  | object : Admits (.object fields) ⟨.object inside, a, o, r, m⟩
  | array : Admits (.array elements) ⟨.array item, a, o, r, m⟩
  | union (member : n ∈ members) (admits : Admits v n) : Admits v ⟨.union members, a, o, r, m⟩
  | reference : Admits v ⟨.reference name, a, o, r, m⟩
  | raw : Admits v ⟨.raw declaration schema, a, o, r, m⟩
  | imported : Admits v ⟨.imported name module, a, o, r, m⟩
  | linked : Admits v ⟨.linked declaration schema, a, o, r, m⟩

end

section
variable {engine : PatternEngine} {n : Node} {v : Json}

theorem anyTakesDefault_iff (v : Json) (ms : List Node) :
    anyTakesDefault engine v ms = true ↔ ∃ n ∈ ms, n.defaultFlaw? engine v = none := by
  induction ms with
  | nil => simp [anyTakesDefault]
  | cons n rest ih => simp [anyTakesDefault, ih]

theorem defaultFlaw?_eq (other : n.shape = .string → ∀ s, v ≠ .string s) :
    n.defaultFlaw? engine v = bif takesDefault engine v n.shape then none else some (.invalidDefault v n.kindName) := by
  obtain ⟨shape, annotations, optionality, restriction, misuse⟩ := n
  rw [Node.defaultFlaw?]
  · rfl
  · exact fun text string same => other string text same

theorem defaultFlaw?_text (string : n.shape = .string) (s : String) :
    n.defaultFlaw? engine (.string s) = n.annotations.mismatch? engine s := by
  obtain ⟨shape, annotations, optionality, restriction, misuse⟩ := n
  cases string
  rw [Node.defaultFlaw?]

theorem defaultFlaw?_other (other : n.shape ≠ .string) (v : Json) :
    n.defaultFlaw? engine v = none ↔ takesDefault engine v n.shape = true := by
  rw [defaultFlaw?_eq fun string => absurd string other]
  cases takesDefault engine v n.shape <;> simp

theorem defaultFlaw?_string (string : n.shape = .string) (v : Json) :
    n.defaultFlaw? engine v = none ↔ ∃ s, v = .string s ∧ n.annotations.mismatch? engine s = none := by
  cases v with
  | string s => simp [defaultFlaw?_text string]
  | _ =>
    rw [defaultFlaw?_eq, string]
    · simp [takesDefault]
    · nofun

theorem mismatch?_some (a : Annotations) (s : String) (flaw : Flaw) :
    a.mismatch? engine s = some flaw ↔
      ∃ text finds, a.pattern = some text ∧ engine text = .ok finds ∧ finds s = false ∧ .patternMismatch s text = flaw := by
  unfold Annotations.mismatch?
  cases set : a.pattern with
  | none => simp
  | some text =>
    cases read : engine text with
    | error why => simp [read]
    | ok finds => cases found : finds s <;> simp [read, found]

theorem mismatch?_none (a : Annotations) (s : String) :
    a.mismatch? engine s = none ↔ ∀ text finds, a.pattern = some text → engine text = .ok finds → finds s = true := by
  constructor
  · intro fine text finds set read
    refine (Bool.eq_false_or_eq_true _).resolve_right fun apart => ?_
    cases fine.symm.trans ((mismatch?_some a s _).2 ⟨text, finds, set, read, apart, rfl⟩)
  · intro matching
    refine Option.eq_none_iff_forall_not_mem.2 fun flaw found => ?_
    obtain ⟨text, finds, set, read, apart, -⟩ := (mismatch?_some a s flaw).1 found
    cases apart.symm.trans (matching text finds set read)

theorem isInteger_iff (v : Json) : v.isInteger = true ↔ ∃ x : Number, v = .number x ∧
    (Binary64.unitsPerOne : Int) ∣ x.units := by
  cases v with
  | number x =>
    have whole : (Json.number x).isInteger = true ↔ (Binary64.unitsPerOne : Int) ∣ x.units := by
      cases x with
      | whole i => exact iff_of_true rfl (Int.dvd_mul_left ..)
      | float x =>
        rw [Number.units, Int.natCast_dvd, Binary64.natAbs_units, Nat.dvd_iff_mod_eq_zero]
        exact beq_iff_eq
    rw [whole]
    constructor
    · exact fun divides => ⟨x, rfl, divides⟩
    · rintro ⟨_, ⟨⟩, divides⟩
      exact divides
  | _ =>
    refine iff_of_false Bool.false_ne_true ?_
    rintro ⟨_, ⟨⟩, _⟩

theorem Node.admits_iff (v : Json) (n : Node) : n.Admits engine v ↔ n.defaultFlaw? engine v = none := by
  induction n using Node.tree_induction with
  | node n ih =>
  obtain ⟨shape, annotations, optionality, restriction, misuse⟩ := n
  have other := @defaultFlaw?_other engine ⟨shape, annotations, optionality, restriction, misuse⟩
  cases shape with
  | string =>
    rw [defaultFlaw?_string rfl]
    constructor
    · rintro ⟨matching⟩
      exact ⟨_, rfl, (mismatch?_none _ _).2 matching⟩
    · rintro ⟨s, rfl, fine⟩
      exact .string ((mismatch?_none _ _).1 fine)
  | integer =>
    rw [other nofun, takesDefault, isInteger_iff]
    constructor
    · rintro ⟨⟩
      exact ⟨_, rfl, ‹_›⟩
    · rintro ⟨x, rfl, whole⟩
      exact .integer whole
  | constant l =>
    rw [other nofun]
    exact ⟨fun | .constant holds => holds, .constant⟩
  | enumeration values naming =>
    rw [other nofun, takesDefault, List.any_eq_true]
    exact ⟨fun | .enumeration member holds => ⟨_, member, holds⟩, fun ⟨_, member, holds⟩ => .enumeration member holds⟩
  | union members =>
    rw [other nofun, takesDefault, anyTakesDefault_iff]
    constructor
    · rintro ⟨⟩
      exact ⟨_, ‹_›, (ih _ ‹_›).1 ‹_›⟩
    · rintro ⟨n, member, fine⟩
      exact .union member ((ih n member).2 fine)
  | number | boolean | null | object | array =>
    rw [other nofun]
    cases v <;> first | exact iff_of_true (by constructor) rfl | exact iff_of_false nofun Bool.false_ne_true
  | reference | raw | imported | linked =>
    rw [other nofun]
    exact iff_of_true (by constructor) rfl

theorem defaultFlaw?_some (v : Json) (n : Node) (flaw : Flaw) :
    n.defaultFlaw? engine v = some flaw ↔
      (∃ s text finds, n.shape = .string ∧ v = .string s ∧ n.annotations.pattern = some text ∧ engine text = .ok finds ∧
        finds s = false ∧ .patternMismatch s text = flaw) ∨
      (n.shape = .string → ∀ s, v ≠ .string s) ∧ ¬n.Admits engine v ∧ .invalidDefault v n.kindName = flaw := by
  by_cases text : n.shape = .string ∧ ∃ s, v = .string s
  · obtain ⟨string, s, rfl⟩ := text
    rw [defaultFlaw?_text string, mismatch?_some]
    constructor
    · rintro ⟨text, finds, found⟩
      exact .inl ⟨s, text, finds, string, rfl, found⟩
    · rintro (⟨_, text, finds, -, same, found⟩ | ⟨other, -⟩)
      · cases same
        exact ⟨text, finds, found⟩
      · exact absurd rfl (other string s)
  · have other : n.shape = .string → ∀ s, v ≠ .string s := fun string s same => text ⟨string, s, same⟩
    rw [Node.admits_iff, defaultFlaw?_eq other]
    constructor
    · intro found
      refine .inr ⟨other, ?_⟩
      cases taken : takesDefault engine v n.shape with
      | true => simp [taken] at found
      | false => simpa [taken] using found
    · rintro (⟨s, _, _, string, same, _⟩ | ⟨-, unfit, same⟩)
      · exact absurd same (other string s)
      · cases taken : takesDefault engine v n.shape with
        | true => simp [taken] at unfit
        | false => exact congrArg some same

end

end TwinShape
