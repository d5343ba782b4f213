import Mathlib
import TwinShape.Node.Builder
import TwinShape.Proofs.InPlace.Declarations
import TwinShape.Proofs.InPlace.Schema
import TwinShape.Proofs.Lint.Stalling
import TwinShape.Schema.Evaluator

namespace TwinShape
namespace InPlace

section
variable (r : Registry) (depth : Nat)

-- Nothing is told if the check of a value does not end.
def checkValues (definition : String) (definitions : Json) (place : Place) (n : Node) :
    Descent Cells (Option (List Diagnostic)) :=
  Descent.andThen (nodeSchema r depth definition n .definitions) fun
    | .error f => .told (some [⟨place, .schema f⟩])
    | .ok none => .told (some [])
    | .ok (some schema) =>
      match r.engines.schema (withDefinitions schema definitions) with
      | .error why => .told (some [⟨place, .unusableSchema why⟩])
      | .ok check => .told (badValues check place n)

def checkAllValues (definition : String) (definitions : Json) :
    List (Place × Node) → Descent Cells (Option (List Diagnostic))
  | [] => .told (some [])
  | (place, n) :: rest =>
    bif n.annotations.examples.isEmpty && n.default?.isNone then checkAllValues definition definitions rest
    else (checkValues r depth definition definitions place n).andThen fun
      | none => .told none
      | some found => (checkAllValues definition definitions rest).andThen fun others => .told (others.map (found ++ ·))

def lintProjection (name : String) (v : Variant) (found : List Diagnostic) :
    Descent Cells (Except (List Diagnostic) (Option Node × List Diagnostic)) :=
  Descent.andThen (projectDefinition r depth name v) fun
    | .error f => .told (.error (found ++ [⟨.root, .projection v f⟩]))
    | .ok none => .told (.ok (none, found))
    | .ok (some n) => .told (.ok (some n, addSingleUnions v found (singleUnionPlaces n)))

def lintDeclaration (name : String) : Descent Cells (List Diagnostic) :=
  Descent.andThen (declarationsFor r depth [name] DeclarationStyle.usual.internalSuffix) fun
    | .error f => .told [⟨.root, .declaration f⟩]
    | .ok _ => .told []

def lintSchema (name : String) (external : Node) : Descent Cells (Option (List Diagnostic)) :=
  Descent.andThen (schemaFor r depth [name] .plain) fun
    | .error f => .told (some [⟨.root, .schema f⟩])
    | .ok reachable =>
      Descent.andThen (schemaFor r depth r.names .plain) fun full =>
        let document := match full with
          | .ok document => document
          | .error _ => reachable
        let definitions := (document.field? Container.definitions.key).getD (.object [])
        checkAllValues r depth name definitions (external.visited .root)

def diagnostics (name : String) : Descent Cells (Option (List Diagnostic)) :=
  Descent.andThen (ask (r.resolve name)) fun
    | .error f => .told (some [⟨.root, .build f⟩])
    | .ok target =>
      (lintProjection r depth name .external (duplicateLiterals target.val)).andThen fun
        | .error found => .told (some found)
        | .ok (external, found) =>
          (lintProjection r depth name .internal found).andThen fun
            | .error found => .told (some found)
            | .ok (_, found) =>
              (lintDeclaration r depth name).andThen fun unwritten =>
                match external with
                | none => .told (some (found ++ unwritten))
                | some external => (lintSchema r depth name external).andThen fun others =>
                  .told (others.map (found ++ unwritten ++ ·))

def lintDefinition (name : String) : Descent Cells (Option DefinitionReport) :=
  (diagnostics r depth name).andThen fun found => .told (found.map (⟨name, ·⟩))

def declarationText (names : List String) (style : DeclarationStyle) : Probing String := do
  let document ← declarationsFor r depth names style.internalSuffix
  pure (document.text style)

end

-- How deep calls are nested at most, whatever is asked for.
def depthBound (r : Registry) : Nat := declarationDepth r + 2 * r.definitions.length + 1

section
variable {r : Registry} {depth : Nat} (enough : depthBound r ≤ depth)
include enough

theorem enough_to_project : projectionDepth r ≤ depth := by
  unfold depthBound declarationDepth at enough
  omega

theorem enough_to_enter : r.definitions.length + projectionDepth r < depth := by
  unfold depthBound declarationDepth at enough
  omega

theorem checkValues_rests (definition : String) (definitions : Json) (place : Place) (n : Node) :
    Mirrors (Rest []) (r.checkValues definition definitions place n) (checkValues r depth definition definitions place n) := by
  refine (nodeSchema_rests (enough_to_enter enough) definition n .definitions).follow fun m answer m' c asked rest => ?_
  unfold Registry.checkValues
  rw [asked]
  rcases answer with e | _ | schema
  · exact ⟨c, rfl, rest⟩
  · exact ⟨c, rfl, rest⟩
  · dsimp only
    cases r.engines.schema (withDefinitions schema definitions) <;> exact ⟨c, rfl, rest⟩

theorem checkAllValues_rests (definition : String) (definitions : Json) (visited : List (Place × Node)) :
    Mirrors (Rest []) (r.checkAllValues definition definitions visited) (checkAllValues r depth definition definitions visited) := by
  induction visited with
  | nil => exact .told (some [])
  | cons entry rest ih =>
    obtain ⟨place, n⟩ := entry
    unfold checkAllValues
    cases skipped : n.annotations.examples.isEmpty && n.default?.isNone with
    | true =>
      intro m c held
      rw [Registry.checkAllValues, skipped]
      exact ih m c held
    | false =>
      refine (checkValues_rests enough definition definitions place n).follow fun m found m' c asked held => ?_
      rw [Registry.checkAllValues, skipped, cond_false, asked]
      cases found with
      | none => exact ⟨c, rfl, held⟩
      | some found => exact (ih.andThen fun others => .told (others.map (found ++ ·))) m' c held

theorem lintProjection_rests (name : String) (v : Variant) (found : List Diagnostic) :
    Mirrors (Rest []) (r.lintProjection name v found) (lintProjection r depth name v found) := by
  refine (projectDefinition_rests (enough_to_project enough) name v).follow fun m answer m' c asked rest => ?_
  unfold Registry.lintProjection
  rw [asked]
  rcases answer with e | _ | n <;> exact ⟨c, rfl, rest⟩

theorem lintDeclaration_rests (name : String) :
    Mirrors (Rest []) (r.lintDeclaration name) (lintDeclaration r depth name) := by
  refine (declarations_rest enough [name] _).follow fun m answer m' c asked rest => ?_
  unfold Registry.lintDeclaration
  rw [asked]
  cases answer <;> exact ⟨c, rfl, rest⟩

theorem lintSchema_rests (name : String) (external : Node) :
    Mirrors (Rest []) (r.lintSchema name external) (lintSchema r depth name external) := by
  have entering := enough_to_enter enough
  refine (schema_rests entering [name] .plain).follow fun m reachable m' c asked rest => ?_
  unfold Registry.lintSchema Registry.schema
  rw [asked]
  cases reachable with
  | error e => exact ⟨c, rfl, rest⟩
  | ok reachable =>
    exact ((schema_rests entering r.names .plain).andThen fun full => checkAllValues_rests enough name _ _) m' c rest

theorem diagnostics_rests (name : String) : Mirrors (Rest []) (r.diagnostics name) (diagnostics r depth name) := by
  intro m c held
  obtain ⟨c₁, built, rest₁⟩ := ask_rests (r.resolve name) m c held
  unfold Registry.diagnostics diagnostics
  rw [Descent.andThen_of built]
  revert rest₁
  rcases r.resolve name m with ⟨e | target, m₁⟩ <;> intro rest₁
  · exact ⟨c₁, rfl, rest₁⟩
  obtain ⟨c₂, outside, rest₂⟩ := lintProjection_rests enough name .external (duplicateLiterals target.val) m₁ c₁ rest₁
  dsimp only
  rw [Descent.andThen_of outside]
  revert rest₂
  rcases r.lintProjection name .external (duplicateLiterals target.val) m₁ with ⟨e | ⟨external, found⟩, m₂⟩ <;> intro rest₂
  · exact ⟨c₂, rfl, rest₂⟩
  obtain ⟨c₃, inside, rest₃⟩ := lintProjection_rests enough name .internal found m₂ c₂ rest₂
  dsimp only
  rw [Descent.andThen_of inside]
  revert rest₃
  rcases r.lintProjection name .internal found m₂ with ⟨e | ⟨_, found⟩, m₃⟩ <;> intro rest₃
  · exact ⟨c₃, rfl, rest₃⟩
  obtain ⟨c₄, written, rest₄⟩ := lintDeclaration_rests enough name m₃ c₃ rest₃
  dsimp only
  rw [Descent.andThen_of written]
  cases external with
  | none => exact ⟨c₄, rfl, rest₄⟩
  | some external =>
    have others := (lintSchema_rests enough name external).andThen fun others =>
      .told (others.map (found ++ (r.lintDeclaration name m₃).1 ++ ·))
    exact others _ c₄ rest₄

theorem lintDefinition_rests (name : String) :
    Mirrors (Rest []) (r.lintDefinition name) (lintDefinition r depth name) :=
  (diagnostics_rests enough name).andThen fun found => .told (found.map (DefinitionReport.mk name))

theorem declarationText_rests (names : List String) (style : DeclarationStyle) :
    Mirrors (Rest []) (r.declarationsFor names style.internalSuffix >>= fun document => pure (document.text style))
      (declarationText r depth names style) :=
  .bind (declarations_rest enough names _) fun document => .pure (document.text style)

end

-- From books with nothing in progress, a descent gets to the end of what is asked and leaves nothing in progress.
def Concludes (f : Memory → β × Memory) (g : Descent Cells β) : Prop :=
  ∀ m assumed, ∃ after, g ⟨m, [], [], assumed⟩ = some ((f m).1, ⟨(f m).2, [], [], after⟩)

theorem Concludes.of_mirrors {f : Memory → β × Memory} {g : Descent Cells β} (mirrors : Mirrors (Rest []) f g) :
    Concludes f g := by
  intro m assumed
  obtain ⟨⟨memory, projecting, checking, after⟩, reached, rest⟩ := mirrors m ⟨m, [], [], assumed⟩ ⟨rfl, rfl, rfl⟩
  obtain ⟨rfl, rfl, rfl⟩ := rest
  exact ⟨after, reached⟩

-- A depth that depends only on the number of definitions is enough for every request. What is left is
-- the check of a value, without whose answer lint has none.
theorem operations_conclude (r : Registry) (further : Nat) :
    let depth := depthBound r + further
    (∀ name v, Concludes (r.projectDefinition name v) (projectDefinition r depth name v)) ∧
    (∀ name, Concludes (r.differs name) (differs r depth name)) ∧
    (∀ names style, Concludes (r.declarationsFor names style.internalSuffix >>= fun document => pure (document.text style))
      (declarationText r depth names style)) ∧
    (∀ names options, Concludes (r.schemaFor names options) (schemaFor r depth names options)) ∧
    (∀ name, Concludes (r.lintDefinition name) (lintDefinition r depth name)) ∧
    ∀ name m, (r.lintDefinition name m).1 = none →
      ∃ m' external, (r.projectDefinition name .external m').1 = .ok (some external) ∧
        ∃ entry ∈ external.visited .root, r.Stuck name entry.2 := by
  intro depth
  have enough : depthBound r ≤ depth := Nat.le_add_right _ further
  have projecting := enough_to_project enough
  have entering := enough_to_enter enough
  refine ⟨fun name v => ?_, fun name => ?_, fun names style => ?_, fun names options => ?_, fun name => ?_,
    fun _ _ => Registry.lintDefinition_endless⟩
  · exact .of_mirrors (projectDefinition_rests projecting name v)
  · exact .of_mirrors (differs_rests entering name)
  · exact .of_mirrors (declarationText_rests enough names style)
  · exact .of_mirrors (schema_rests entering names options)
  · exact .of_mirrors (lintDefinition_rests enough name)

-- A union that names itself before anything else, with an example.
def circle : Node := (Node.unionOf [.referenceTo "A", .string]).addExample (.string "x")

def circling (engines : Engines) : Registry := ⟨[⟨"A", circle⟩], by simp, engines⟩

def circleMemory : Memory := ⟨["A"], ["A"], [(("A", .internal), true), (("A", .external), true)], []⟩

def circleSchema : Json :=
  .object [("anyOf", .array [.object [("$ref", .string "#/definitions/A")], .object [("type", .string "string")]]),
    ("examples", .array [.string "x"])]

def circleBook : RuleBook :=
  let rule : Rule := .keywords [.anyOf [.keywords [.reference "#/definitions/A"], .keywords [.type [.string]]]]
  ⟨rule, [("#/definitions/A", rule)]⟩

theorem circleSchema_read : RuleBook.ofDocument? (withDefinitions circleSchema (.object [("A", circleSchema)])) =
    some circleBook := by
  cbv

theorem circleBook_endless : violations circleBook [] circleBook.root (.string "x") = .endless := by
  cbv

theorem circling_examined (engines : Engines) : ((circling engines).lintDefinition "A" .blank).1 =
    (((circling engines).checkAllValues "A" (.object [("A", circleSchema)]) (circle.visited .root)
      circleMemory).1.map ([] ++ ·)).map (⟨"A", ·⟩) := by
  cbv

theorem circling_written (engines : Engines) :
    ((circling engines).nodeSchema "A" circle .definitions circleMemory).1 =
      .ok (some circleSchema) := by
  cbv

theorem circling_goes_round {engines : Engines}
    (read : engines.schema (withDefinitions circleSchema (.object [("A", circleSchema)])) = .ok check)
    (endless : (check (.string "x")).first? = none) : ((circling engines).lintDefinition "A" .blank).1 = none := by
  have visited : circle.visited .root = (.root, circle) :: (circle.visited .root).tail := by cbv
  rw [circling_examined, visited, Registry.checkAllValues, Registry.checkValues]
  generalize asked : (circling engines).nodeSchema "A" circle .definitions _ = answer
  have same := circling_written engines
  rw [asked] at same
  obtain ⟨_, m⟩ := answer
  cases same
  have stuck : badValues check .root circle = none := by
    unfold badValues
    rw [show circle.annotations.examples = [.string "x"] from rfl, badExamples, endless]
    rfl
  have asks : (circle.annotations.examples.isEmpty && circle.default?.isNone) = false := rfl
  have check_ : (circling engines).engines.schema (withDefinitions circleSchema (.object [("A", circleSchema)])) = .ok check := read
  rw [asks, cond_false]
  dsimp only
  rw [check_]
  dsimp only
  rw [stuck]
  rfl

-- The example is checked against the reference first, which leads back to the same check.
theorem lintDefinition_circling : ((circling .builtIn).lintDefinition "A" .blank).1 = none := by
  have read : Engines.builtIn.schema (withDefinitions circleSchema (.object [("A", circleSchema)])) = .ok circleBook.check := by
    unfold Engines.builtIn
    dsimp only
    rw [circleSchema_read]
  refine circling_goes_round read ?_
  rw [RuleBook.check, circleBook_endless]
  rfl

end InPlace
end TwinShape
