import Mathlib
import TwinShape.Declaration.Drafting
import TwinShape.Node.Builder
import TwinShape.Node.Check
import TwinShape.Proofs.Declaration.Strings
import TwinShape.Schema.Evaluator

namespace TwinShape

def Text.capitalized : List Char → List Char
  | [] => []
  | c :: rest => c.toUpper :: rest

def Text.spelling (text : List Char) : List Char :=
  (text.splitOnP fun c => !c.isAlphanum).flatMap Text.capitalized

namespace Literal

theorem pascalChars_eq_spelling (text : List Char) : pascalChars true text = Text.spelling text ∧
    ∃ run runs, (text.splitOnP fun c => !c.isAlphanum) = run :: runs ∧
      pascalChars false text = run ++ runs.flatMap Text.capitalized := by
  unfold Text.spelling
  induction text with
  | nil => exact ⟨rfl, [], [], rfl, rfl⟩
  | cons c rest ih =>
    obtain ⟨inside, run, runs, split, within⟩ := ih
    rw [List.splitOnP_cons_eq_if_modifyHead]
    cases known : c.isAlphanum with
    | true =>
      rw [if_neg (by decide), split]
      refine ⟨?_, c :: run, runs, rfl, ?_⟩
      · rw [pascalChars, if_pos known, if_pos rfl, within]
        rfl
      · rw [pascalChars, if_pos known, if_neg (by decide), within]
        rfl
    | false =>
      rw [if_pos (by decide)]
      refine ⟨?_, [], _, rfl, ?_⟩
      · rw [pascalChars, if_neg (by rw [known]; decide), inside]
        rfl
      · rw [pascalChars, if_neg (by rw [known]; decide), inside]
        rfl

theorem isAlphanum_toUpper {c : Char} (known : c.isAlphanum = true) : c.toUpper.isAlphanum = true := by
  have each : ∀ n : Fin 128, (Char.ofNat n).isAlphanum = true → (Char.ofNat n).toUpper.isAlphanum = true := by decide
  exact of_ascii (P := fun c => c.isAlphanum = true → c.toUpper.isAlphanum = true) each (isAlphanum_ascii known) known

theorem pascalChars_alphanum (upper : Bool) (text : List Char) : ∀ c ∈ pascalChars upper text, c.isAlphanum = true := by
  induction text generalizing upper with
  | nil => exact List.forall_mem_nil _
  | cons c rest ih =>
    rw [pascalChars]
    split
    · rename_i known
      refine List.forall_mem_cons.2 ⟨?_, ih false⟩
      split
      · exact isAlphanum_toUpper known
      · exact known
    · exact ih true

def symbolChars : List Char → List Char
  | [] => ['E', 'm', 'p', 't', 'y']
  | c :: rest => if c.isDigit then 'N' :: c :: rest else c :: rest

theorem toList_pascalCase (l : Literal) : l.pascalCase.toList = symbolChars (Text.spelling l.display.toList) := by
  rw [← (pascalChars_eq_spelling _).1]
  unfold pascalCase
  split
  · rename_i same
    rw [same]
    rfl
  · rename_i same
    rw [same]
    exact String.toList_ofList

structure IsSymbol (s : List Char) : Prop where
  some_ : s ≠ []
  each : ∀ c ∈ s, c.isAlphanum = true
  first : s.head?.any Char.isDigit = false

theorem isSymbol_symbolChars (each : ∀ c ∈ s, c.isAlphanum = true) : IsSymbol (symbolChars s) := by
  unfold symbolChars
  split
  · exact ⟨by decide, List.all_eq_true.1 (by decide), by decide⟩
  · split
    · exact ⟨List.cons_ne_nil _ _, List.forall_mem_cons.2 ⟨rfl, each⟩, rfl⟩
    · rename_i letter
      exact ⟨List.cons_ne_nil _ _, each, Bool.eq_false_iff.2 letter⟩

theorem isSymbol_pascalCase (l : Literal) : IsSymbol l.pascalCase.toList := by
  rw [toList_pascalCase, ← (pascalChars_eq_spelling _).1]
  exact isSymbol_symbolChars (pascalChars_alphanum true _)

-- The second spelling is itself the symbol that the first one becomes.
inductive Shadows : List Char → List Char → Prop
  | empty : Shadows [] ['E', 'm', 'p', 't', 'y']
  | digit (digit : c.isDigit = true) : Shadows (c :: s) ('N' :: c :: s)

theorem Shadows.same_symbol (shadows : Shadows s t) : symbolChars s = symbolChars t := by
  cases shadows with
  | empty => rfl
  | digit digit =>
    rw [symbolChars, if_pos digit]
    rfl

theorem symbolChars_eq_iff : symbolChars s = symbolChars t ↔ s = t ∨ Shadows s t ∨ Shadows t s := by
  constructor
  · intro same
    cases s with
    | nil =>
      cases t with
      | nil => exact .inl rfl
      | cons d t =>
        rw [symbolChars, symbolChars] at same
        split at same
        · cases same
        · cases same
          exact .inr (.inl .empty)
    | cons c s =>
      cases t with
      | nil =>
        rw [symbolChars, symbolChars] at same
        split at same
        · cases same
        · cases same
          exact .inr (.inr .empty)
      | cons d t =>
        rw [symbolChars, symbolChars] at same
        split at same <;> split at same
        · cases same
          exact .inl rfl
        · rename_i digit _
          cases same
          exact .inr (.inl (.digit digit))
        · rename_i _ digit
          cases same
          exact .inr (.inr (.digit digit))
        · exact .inl same
  · rintro (rfl | shadows | shadows)
    · rfl
    · exact shadows.same_symbol
    · exact shadows.same_symbol.symm

theorem pascalCase_eq_iff {a b : Literal} : a.pascalCase = b.pascalCase ↔
    Text.spelling a.display.toList = Text.spelling b.display.toList ∨
      Shadows (Text.spelling a.display.toList) (Text.spelling b.display.toList) ∨
      Shadows (Text.spelling b.display.toList) (Text.spelling a.display.toList) := by
  rw [← symbolChars_eq_iff, ← toList_pascalCase, ← toList_pascalCase, String.toList_inj]

end Literal

-- The members of a named enumeration are its values, each with a symbol. Two symbols are the same
-- only if their values are spelled alike, or one of them spells out the symbol of the other.
theorem bodyOf_enumeration {n : Node} (shape : n.shape = .enumeration values (some naming))
    (usual : naming.symbol = Literal.pascalCase) (r : Registry) (s : DraftScope) (d : Draft) :
    ∃ members, bodyOf r s n d = (.ok (.enumeration members), d) ∧ members.map (·.2) = values ∧
      ∀ m ∈ members, Literal.IsSymbol m.1.toList ∧ ∀ m' ∈ members, (m.1 = m'.1 ↔
        Text.spelling m.2.display.toList = Text.spelling m'.2.display.toList ∨
          Literal.Shadows (Text.spelling m.2.display.toList) (Text.spelling m'.2.display.toList) ∨
          Literal.Shadows (Text.spelling m'.2.display.toList) (Text.spelling m.2.display.toList)) := by
  refine ⟨values.map fun value => (naming.symbol value, value), ?_, ?_, ?_⟩
  · obtain ⟨_, annotations, optionality, restriction, misuse⟩ := n
    cases shape
    rw [bodyOf]
    rfl
  · rw [List.map_map]
    exact List.map_id values
  · rw [usual]
    intro m member
    obtain ⟨a, -, rfl⟩ := List.mem_map.1 member
    refine ⟨Literal.isSymbol_pascalCase a, fun m' member' => ?_⟩
    obtain ⟨b, -, rfl⟩ := List.mem_map.1 member'
    exact Literal.pascalCase_eq_iff

def Node.symbols (values : List String) : Node :=
  (Node.enumOf (values.map .string)).named ⟨⟨"Symbols", []⟩, Literal.pascalCase⟩

-- A number and what is written like the symbol of it.
theorem numbered_symbols : ∃ members, bodyOf ⟨[], by decide, .builtIn⟩ ⟨"Internal", .external, [], ""⟩
    (.symbols ["on-change", "3", ""])
    ⟨.blank, [], []⟩ = (.ok (.enumeration members), ⟨.blank, [], []⟩) ∧ members.map (·.1) = ["OnChange", "N3", "Empty"] ∧
      ∀ m ∈ members, Literal.IsSymbol m.1.toList := by
  obtain ⟨members, made, -, each⟩ := bodyOf_enumeration (n := .symbols ["on-change", "3", ""]) rfl rfl ⟨[], by decide, .builtIn⟩
    ⟨"Internal", .external, [], ""⟩ ⟨.blank, [], []⟩
  refine ⟨members, made, ?_, fun m member => (each m member).1⟩
  have computed : bodyOf ⟨[], by decide, .builtIn⟩ ⟨"Internal", .external, [], ""⟩ (.symbols ["on-change", "3", ""]) ⟨.blank, [], []⟩ =
      (.ok (.enumeration [("OnChange", .string "on-change"), ("N3", .string "3"), ("Empty", .string "")]), ⟨.blank, [], []⟩) := by
    cbv
  cases made.symm.trans computed
  rfl

def hyphenated : Registry := ⟨[⟨"E", .symbols ["a-b", "aB"]⟩], by decide, .builtIn⟩

theorem hyphenated_repeats : (Node.symbols ["a-b", "aB"]).firstFlaw? hyphenated.engines.pattern .root = none ∧
    Literal.same (.string "a-b") (.string "aB") = false ∧
    ∃ document declaration, (hyphenated.declarations "Internal" .blank).1 = .ok document ∧ declaration ∈ document.declarations ∧
      declaration.body = .enumeration [("AB", .string "a-b"), ("AB", .string "aB")] := by
  refine ⟨by decide +kernel, by decide, ⟨[], [⟨"E", [], .enumeration [("AB", .string "a-b"), ("AB", .string "aB")]⟩]⟩, _, by cbv,
    List.mem_cons_self, rfl⟩

end TwinShape
