import TwinShape.Proofs.Lint.Findings
import TwinShape.Proofs.Lint.Visit
import TwinShape.Proofs.Schema.Chart
import TwinShape.Proofs.Variation.Exactness

namespace TwinShape

def Node.sheetFields (n : Node) (container : List (String × Json)) : List (String × Json) :=
  Table.set (n.fields .definitions) "definitions" (.object container)

theorem Node.sheetFields_dialect (n : Node) (container : List (String × Json)) :
    Dialect.ofDocument (.object (n.sheetFields container)) = .draft2020 := by
  have absent : Table.get? (n.sheetFields container) "$schema" = none := by
    unfold sheetFields
    rw [Table.get?_set, if_neg (by decide)]
    refine Option.eq_none_iff_forall_ne_some.2 fun j found => ?_
    have foreign : "$schema" ∉ writtenKeys := by decide
    exact foreign (n.fields_keys .definitions _ (Table.mem_of_get? found))
  unfold Dialect.ofDocument
  rw [Json.field?, absent]

theorem Registry.Chart.sheet {r : Registry} {shapes : Table Node} (chart : r.Chart shapes) (expressible : r.Expressible)
    {slots : Table (Option Json)} (held : Slots .definitions [] shapes slots) (piece : r.Piece shapes n) :
    Sheet (n.sheetFields (filledSlots slots)) n shapes := by
  refine ⟨chart.plain expressible, chart.shaped, piece.orderly, Table.nodup_keys_set (n.fields_wraps .definitions).distinct _ _, ?_, ?_, ?_⟩
  · refine ⟨slots, held, ?_⟩
    unfold Node.sheetFields
    rw [Table.get?_set, if_pos rfl]
  · unfold Node.sheetFields
    rw [Table.filter_set]
    rfl
  · intro f member
    exact (Table.mem_set member).elim (fun here => .inr (.inl (congrArg (·.1) here))) .inl

open Classical in
noncomputable def Node.accepts (p : PatternReading) (shapes : Table Node) (n : Node) (j : Json) : Bool :=
  decide (n.IsLegible p shapes → Conforms p meetsConstant shapes n j)

theorem Node.accepts_iff {p : PatternReading} {shapes : Table Node} {n : Node} :
    n.accepts p shapes j = true ↔ (n.IsLegible p shapes → Conforms p meetsConstant shapes n j) := by
  simp only [accepts, decide_eq_true_eq]

open Classical in
noncomputable def Node.unread (place : Place) (n : Node) (p : PatternReading) (shapes : Table Node) : List Place :=
  if n.hasValues ∧ ¬n.IsLegible p shapes then [place] else []

namespace Registry
variable {r : Registry} {shapes : Table Node}

-- What is reported about the values of these nodes is what their shapes do not accept; where
-- a pattern cannot be used, that is reported in place of them.
def Reports (p : PatternReading) (shapes : Table Node) (nodes : List (Place × Node)) (found : List Diagnostic) : Prop :=
  reported "E002" found = nodes.flatMap (fun (place, n) => n.rejectedExamples place (n.accepts p shapes)) ∧
    reported "E003" found = nodes.flatMap (fun (place, n) => n.rejectedDefault place (n.accepts p shapes)) ∧
    placesOf Concern.isUnusable found = nodes.flatMap fun (place, n) => n.unread place p shapes

section
variable {p : PatternReading}

theorem Reports.nil {found : List Diagnostic} (none_ : judgements found = []) : Reports p shapes [] found := by
  have each : ∀ kind : Concern → Bool, (∀ c, kind c = true → c.isJudgement = true) → placesOf kind found = [] := by
    intro kind judges
    rw [← placesOf_judgements judges, none_]
    rfl
  exact ⟨each _ fun _ same => Concern.judgement_of_code (.inl (beq_iff_eq.1 same)),
    each _ fun _ same => Concern.judgement_of_code (.inr (beq_iff_eq.1 same)), each _ fun _ => Concern.judgement_of_unusable⟩

theorem Reports.single {place : Place} {n : Node} {found : List Diagnostic}
    (values : reported "E002" found = n.rejectedExamples place (n.accepts p shapes) ∧
      reported "E003" found = n.rejectedDefault place (n.accepts p shapes) ∧ placesOf Concern.isUnusable found = n.unread place p shapes) :
    Reports p shapes [(place, n)] found :=
  ⟨values.1.trans (List.append_nil _).symm, values.2.1.trans (List.append_nil _).symm, values.2.2.trans (List.append_nil _).symm⟩

theorem Reports.append {first second : List (Place × Node)} {found others : List Diagnostic}
    (here : Reports p shapes first found)
    (later : Reports p shapes second others) : Reports p shapes (first ++ second) (found ++ others) := by
  refine ⟨?_, ?_, ?_⟩
  · rw [reported, placesOf_append, List.flatMap_append, ← here.1, ← later.1]
    rfl
  · rw [reported, placesOf_append, List.flatMap_append, ← here.2.1, ← later.2.1]
    rfl
  · rw [placesOf_append, List.flatMap_append, ← here.2.2, ← later.2.2]

end

theorem checkValues_memory (r : Registry) (definition : String) (definitions : Json) (place : Place) (n : Node)
    (m : Memory) :
    (r.nodeSchema definition n .definitions m).2 = (r.checkValues definition definitions place n m).2 := by
  unfold checkValues
  rcases r.nodeSchema definition n .definitions m with ⟨_ | _ | schema, m'⟩
  · rfl
  · rfl
  · dsimp only
    cases r.engines.schema (withDefinitions schema definitions) <;> rfl

section
variable {p : PatternReading} (lawful : r.engines.schema.Lawful p) (expressible : r.Expressible) (unlinked : r.Unlinked)
  (chart : r.Chart shapes) {slots : Table (Option Json)} (held : Slots .definitions [] shapes slots)
include lawful expressible unlinked chart held

omit lawful expressible held in
theorem checkValues_eq {m : Memory} (informed : m.Informed r) (piece : r.Piece shapes n) (definition : String)
    (place : Place)
    (container : List (String × Json)) : (r.checkValues definition (.object container) place n m).1 =
      match r.engines.schema (.object (n.sheetFields container)) with
      | .error why => some [⟨place, .unusableSchema why⟩]
      | .ok check => badValues check place n := by
  have schema := chart.nodeSchema_eq unlinked informed piece definition .definitions
  unfold checkValues
  revert schema
  rcases r.nodeSchema definition n .definitions m with ⟨_ | _ | schema, m'⟩ <;> rintro ⟨⟩
  change Prod.fst (match r.engines.schema (.object (n.sheetFields container)) with
    | .error why => (some [⟨place, .unusableSchema why⟩], m')
    | .ok check => (badValues check place n, m')) = _
  cases r.engines.schema (.object (n.sheetFields container)) <;> rfl

theorem checkValues_reports {m : Memory} (informed : m.Informed r) (piece : r.Piece shapes n) (settled : n.Settled)
    (values : n.hasValues) (definition : String) (place : Place) : ∃ found,
      (r.checkValues definition (.object (filledSlots slots)) place n m).1 = some found ∧ Reports p shapes [(place, n)] found := by
  have sheet := chart.sheet expressible held piece
  have legible : (∃ check, r.engines.schema (.object (n.sheetFields (filledSlots slots))) = .ok check) ↔ n.IsLegible p shapes := by
    rw [lawful.usable _ sheet.plain_document, sheet.usable_iff, n.sheetFields_dialect]
    exact and_iff_right nofun
  rw [checkValues_eq unlinked chart informed piece]
  cases read : r.engines.schema (.object (n.sheetFields (filledSlots slots))) with
  | error why =>
    have illegible : ¬n.IsLegible p shapes := by
      intro readable
      obtain ⟨check, found⟩ := legible.2 readable
      cases read.symm.trans found
    have accepted : ∀ j, n.accepts p shapes j = true := fun j => Node.accepts_iff.2 fun readable => absurd readable illegible
    refine ⟨_, rfl, .single ?_⟩
    unfold Node.unread
    rw [if_pos ⟨values, illegible⟩]
    unfold Node.rejectedExamples Node.rejectedDefault
    simp only [accepted]
    refine ⟨?_, ?_, rfl⟩
    · simp [placesOf, reported, Concern.code]
    · simp [placesOf, reported, Concern.code]
  | ok check =>
    have readable := legible.1 ⟨check, read⟩
    have guarded := sheet.guarded expressible.founded chart.bare
    have settles : ∀ j : Json, j.Settled → Settles check (n.accepts p shapes) j := by
      intro j settled
      obtain ⟨ends, sound⟩ := lawful.judges_sheet sheet guarded read settled
      refine ⟨ends, sound.trans ?_⟩
      rw [Node.accepts_iff]
      exact ⟨fun conforms _ => conforms, fun conforms => conforms readable⟩
    obtain ⟨found, shown, examples, default, usable⟩ :=
      reported_values (fun j listed => settles j (settled.1 j listed)) fun j set => settles j (settled.2 j set)
    refine ⟨found, shown, .single ⟨examples, default, usable.trans ?_⟩⟩
    unfold Node.unread
    rw [if_neg fun unread => unread.2 readable]

theorem checkAllValues_reports (definition : String) {nodes : List (Place × Node)}
    (pieces : ∀ e ∈ nodes, r.Piece shapes e.2 ∧ e.2.Settled) {m : Memory} (informed : m.Informed r) : ∃ found,
      (r.checkAllValues definition (.object (filledSlots slots)) nodes m).1 = some found ∧ Reports p shapes nodes found := by
  induction nodes generalizing m with
  | nil => exact ⟨[], rfl, .nil rfl⟩
  | cons e rest ih =>
    obtain ⟨place, n⟩ := e
    have ⟨piece, settled⟩ := pieces _ List.mem_cons_self
    have others := fun e member => pieces e (List.mem_cons_of_mem _ member)
    rw [checkAllValues]
    cases bare : n.annotations.examples.isEmpty && n.default?.isNone with
    | true =>
      obtain ⟨examples, default⟩ := Bool.and_eq_true_iff.1 bare
      have here : Reports p shapes [(place, n)] [] := by
        have without : ¬(n.hasValues = true ∧ ¬n.IsLegible p shapes) := fun some_ => by
          unfold Node.hasValues at some_
          rw [bare] at some_
          cases some_.1
        refine .single ⟨?_, ?_, ?_⟩
        · rw [Node.rejectedExamples, List.isEmpty_iff.1 examples]
          rfl
        · rw [Node.rejectedDefault, Option.isNone_iff_eq_none.1 default]
          rfl
        · rw [Node.unread, if_neg without]
          rfl
      obtain ⟨found, shown, later⟩ := ih others informed
      exact ⟨found, shown, here.append later⟩
    | false =>
      have values : n.hasValues := by
        unfold Node.hasValues
        rw [bare]
        rfl
      have after : (r.checkValues definition (.object (filledSlots slots)) place n m).2.Informed r :=
        checkValues_memory r _ _ _ _ _ ▸ (informed_kept r).request_keeps (.nodeSchema definition n .definitions) informed
      obtain ⟨first, checked, here⟩ := checkValues_reports lawful expressible unlinked chart held informed piece settled values definition place
      obtain ⟨found, shown, later⟩ := ih others after
      refine ⟨first ++ found, ?_, here.append later⟩
      revert checked shown
      rcases r.checkValues definition (.object (filledSlots slots)) place n m with ⟨_, m'⟩
      rintro ⟨⟩ shown
      change Option.map _ (r.checkAllValues definition (.object (filledSlots slots)) rest m').1 = _
      rw [shown]
      rfl

end

section
variable {m m' : Memory}

theorem lintProjection_ok (ran : r.projectDefinition name v m = (.ok out, m')) (found : List Diagnostic) :
    ∃ found', r.lintProjection name v found m = (.ok (out, found'), m') ∧ judgements found' = judgements found := by
  unfold lintProjection
  rw [ran]
  cases out with
  | none => exact ⟨found, rfl, rfl⟩
  | some n => exact ⟨_, rfl, judgements_singleUnions v found _⟩

theorem judgements_declaration (r : Registry) (name : String) (m : Memory) :
    judgements (r.lintDeclaration name m).1 = [] := by
  unfold lintDeclaration
  rcases r.declarationsFor [name] DeclarationStyle.usual.internalSuffix m with ⟨e | document, m'⟩ <;> rfl

theorem lintDeclaration_memory (r : Registry) (name : String) (m : Memory) :
    (r.declarationsFor [name] DeclarationStyle.usual.internalSuffix m).2 = (r.lintDeclaration name m).2 := by
  unfold lintDeclaration
  rcases r.declarationsFor [name] DeclarationStyle.usual.internalSuffix m with ⟨e | document, m'⟩ <;> rfl

-- Before the nodes of a definition are checked, nothing is said about their values.
theorem lintDefinition_found (first : r.resolve name m = (.ok target, m₀))
    (second : r.projectDefinition name .external m₀ = (.ok out, m₁))
    (third : r.projectDefinition name .internal m₁ = (.ok own, m₂)) :
    ∃ before, judgements before = [] ∧ (r.lintDefinition name m).1 =
      (out.elim (some []) fun n => (r.lintSchema name n (r.lintDeclaration name m₂).2).1).map (⟨name, before ++ ·⟩) := by
  obtain ⟨n, built⟩ := target
  obtain ⟨found₁, shown₁, kept₁⟩ := lintProjection_ok second (duplicateLiterals n)
  obtain ⟨found₂, shown₂, kept₂⟩ := lintProjection_ok third found₁
  refine ⟨found₂ ++ (r.lintDeclaration name m₂).1, ?_, ?_⟩
  · rw [judgements_append, kept₂, kept₁, judgements_duplicateLiterals, judgements_declaration, List.append_nil]
  · unfold lintDefinition diagnostics
    rw [first]
    dsimp only
    rw [shown₁]
    dsimp only
    rw [shown₂]
    cases out with
    | none => exact congrArg (fun found => some (DefinitionReport.mk name found)) (List.append_nil _).symm
    | some n => exact Option.map_map ..

end

section
variable {p : PatternReading} (lawful : r.engines.schema.Lawful p) (expressible : r.Expressible) (unlinked : r.Unlinked)
  (chart : r.Chart shapes) (settled : r.Settled)
include lawful expressible unlinked chart settled

omit lawful in
theorem Chart.visited (found : shapes.get? name = some n) :
    ∀ e ∈ n.visited .root, r.Piece shapes e.2 ∧ e.2.Settled := by
  have piece := chart.piece unlinked expressible found
  obtain ⟨m, reached, answered⟩ := (chart.charted name n).1 found
  obtain ⟨target, resolves, projected⟩ := projectDefinition_ok reached.informed.exact_.built.sound answered
  have values := settled.projected (settled name target resolves.1) projected
  rintro ⟨place, x⟩ member
  have part := Node.part_of_visited piece.tidy member
  exact ⟨piece.part part, values x part.part⟩

theorem lintSchema_reports {m : Memory} (reached : r.InSession m) (found : shapes.get? name = some n) :
    ∃ diagnostics, (r.lintSchema name n m).1 = some diagnostics ∧ Reports p shapes (n.visited .root) diagnostics := by
  have registered := (chart.external name n found).registered
  obtain ⟨document, m₁, first⟩ := chart.schemaFor_ends unlinked reached.informed (List.forall_mem_singleton.2 registered) .plain nofun
  have reached₁ : r.InSession m₁ := by
    have after := (reached_kept r).request_keeps (.schema [name] .plain) reached
    change r.InSession (r.schemaFor [name] .plain m).2 at after
    rwa [first] at after
  obtain ⟨slots, m₂, held, full⟩ := chart.emits unlinked expressible reached₁ .plain nofun
  have reached₂ : r.InSession m₂ := by
    have after := (reached_kept r).request_keeps (.schema r.names .plain) reached₁
    change r.InSession (r.schema .plain m₁).2 at after
    rwa [full] at after
  unfold lintSchema
  rw [first]
  dsimp only
  rw [full]
  exact checkAllValues_reports lawful expressible unlinked chart held name (chart.visited expressible unlinked settled found) reached₂.informed

omit lawful expressible settled in
-- The projections that lint makes are those that were made before, with one answer behind the other.
theorem projections_ahead {m : Memory} {out own : Option Node} (reached : r.InSession m)
    (external : (r.projectDefinition name .external m).1 = .ok out) (internal : (r.projectDefinition name .internal m).1 = .ok own) :
    ∃ target m₀ m₁ m₂, r.resolve name m = (.ok target, m₀) ∧ r.projectDefinition name .external m₀ = (.ok out, m₁) ∧
      r.projectDefinition name .internal m₁ = (.ok own, m₂) ∧ r.InSession m₂ := by
  have kept := reached_kept r
  have sound : ∀ {m' : Memory}, r.InSession m' → m'.Sound r := fun session => session.informed.exact_.built.sound
  obtain ⟨target, resolves, -⟩ := projectDefinition_ok (sound reached) external
  have resolved : (r.resolve name m).1 = .ok ⟨target, resolves.1⟩ :=
    (resolveFrom_answer (sound reached) name name).trans (resolution_of_resolves resolves name)
  have reached₀ : r.InSession (r.resolve name m).2 := kept.resolve name name m reached
  obtain ⟨out', outer⟩ := projectDefinition_sturdy unlinked chart.sturdy reached₀.informed (mem_names_of_find? resolves.1)
  cases projection_determined unlinked (.inl rfl) ⟨m, reached, external⟩ ⟨_, reached₀, outer⟩
  have reached₁ : r.InSession (r.projectDefinition name .external (r.resolve name m).2).2 :=
    kept.projectDefinition name .external _ reached₀
  have alike : Memory.Alike r .internal .internal (r.projectDefinition name .external (r.resolve name m).2).2 m := by
    refine ⟨fun of => ?_, sound reached₁, sound reached⟩
    have apart : Variant.external ≠ .internal := by decide
    have other : (r.projectDefinition name .external (r.resolve name m).2).2.recallPresence (of, .internal) =
      (r.resolve name m).2.recallPresence (of, .internal) := definition_other apart name _ of
    exact other.trans (recall_of_same (resolveFrom_same name name m) _)
  have inner := (projectDefinition_consistent name _ m alike).1.trans internal
  exact ⟨_, _, _, _, Prod.ext resolved rfl, Prod.ext outer rfl, Prod.ext inner rfl, kept.projectDefinition name .internal _ reached₁⟩

theorem lintDefinition_reports {m : Memory} {out own : Option Node} (reached : r.InSession m)
    (external : (r.projectDefinition name .external m).1 = .ok out) (internal : (r.projectDefinition name .internal m).1 = .ok own) :
    ∃ report, (r.lintDefinition name m).1 = some report ∧
      Reports p shapes (out.toList.flatMap (Node.visited .root)) report.diagnostics := by
  obtain ⟨target, m₀, m₁, m₂, first, second, third, reached₂⟩ := projections_ahead unlinked chart reached external internal
  have reached₃ : r.InSession (r.lintDeclaration name m₂).2 := lintDeclaration_memory r name m₂ ▸
    (reached_kept r).request_keeps (.declarations [name] DeclarationStyle.usual.internalSuffix) reached₂
  obtain ⟨before, none_, whole⟩ := lintDefinition_found first second third
  rw [whole]
  cases out with
  | none => exact ⟨_, rfl, .nil (by rw [judgements_append, none_]; rfl)⟩
  | some n =>
    have found : shapes.get? name = some n := (chart.charted name n).2 ⟨m, reached, external⟩
    obtain ⟨others, shown, reports⟩ := lintSchema_reports lawful expressible unlinked chart settled reached₃ found
    rw [Option.elim_some, shown, Option.toList_some, List.flatMap_singleton]
    exact ⟨_, rfl, (Reports.nil none_).append reports⟩

end
end Registry
end TwinShape
