import TwinShape.Proofs.Lint.Judgement

namespace TwinShape

theorem Node.mem_rejectedExamples {n : Node} {place q : Place} {accepts : Json → Bool} :
    q ∈ n.rejectedExamples place accepts ↔
      ∃ i j, n.annotations.examples[i]? = some j ∧ accepts j = false ∧ place.item "examples" i = q := by
  unfold Node.rejectedExamples
  simp only [List.mem_map, List.mem_filter, List.mem_zipIdx_iff_getElem?, Bool.not_eq_true', Prod.exists]
  constructor
  · rintro ⟨j, i, ⟨listed, refused⟩, same⟩
    exact ⟨i, j, listed, refused, same⟩
  · rintro ⟨i, j, listed, refused, same⟩
    exact ⟨j, i, ⟨listed, refused⟩, same⟩

theorem Node.rejected_root_iff {n : Node} (tidy : n.Each (·.shape.Tidy)) (unlinked : n.Each (·.shape.isLinked = false))
    (accepts : Node → Json → Bool) (i : Nat) :
    Place.root.item "examples" i ∈ (n.visited .root).flatMap (fun (place, x) => x.rejectedExamples place (accepts x)) ↔
      ∃ j, n.annotations.examples[i]? = some j ∧ accepts n j = false := by
  rw [List.mem_flatMap]
  constructor
  · rintro ⟨⟨place, x⟩, member, inside⟩
    obtain ⟨k, j, listed, refused, same⟩ := Node.mem_rejectedExamples.1 inside
    obtain ⟨rfl, rfl⟩ := Place.item_inj same
    cases List.inj_on_of_nodup_map (Node.visited_nodup tidy unlinked .root) member (n.visited_self .root) rfl
    exact ⟨j, listed, refused⟩
  · rintro ⟨j, listed, refused⟩
    exact ⟨(.root, n), n.visited_self .root, Node.mem_rejectedExamples.2 ⟨i, j, listed, refused, rfl⟩⟩

namespace Registry
variable {r : Registry} {shapes : Table Node}

section
variable {p : PatternReading}

theorem legible_of_readable (readable : Readable p name shapes) (found : shapes.get? name = some n) :
    n.IsLegible p shapes :=
  ⟨readable.readable name n .refl found, fun _ referred other k path found' =>
    readable.readable other k (path.head ⟨n, found, referred⟩) found'⟩

theorem accepts_readable (readable : Readable p name shapes) (found : shapes.get? name = some n) :
    n.accepts p shapes j = true ↔ Conforms p meetsConstant shapes n j :=
  Node.accepts_iff.trans ⟨fun conforms => conforms (legible_of_readable readable found), fun conforms _ => conforms⟩

-- Validation finds fault with what does not conform, in a document that can be used.
theorem validate_violated (lawful : r.engines.schema.Lawful p) (expressible : r.Expressible) (unlinked : r.Unlinked)
    (chart : r.Chart shapes) {m : Memory} (reached : r.InSession m) (found : shapes.get? name = some n) (settled : j.Settled) :
    (∃ first rest, (r.validate name j m).1 = some (.error (.violated first rest))) ↔
      Readable p name shapes ∧ ¬Conforms p meetsConstant shapes n j := by
  have listed : name ∈ shapes.keys := Table.mem_keys_iff.2 ⟨n, found⟩
  obtain ⟨slots, m', held, emitted⟩ := chart.emits unlinked expressible reached (.rooted name) fun root same => Option.some.inj same ▸ listed
  have made : MadeOf (schemaDocument (.rooted name) (filledSlots slots)) name shapes :=
    ⟨chart.plain expressible, chart.shaped, ⟨slots, held, rfl⟩, listed⟩
  obtain ⟨verdict, ended, judged⟩ := expressible.judges lawful settled made chart.external
  rw [validate_eq emitted, ended, ← made.usable_iff]
  simp only [Option.some.injEq]
  rw [judged.violated_iff, made.accepts_iff]
  refine and_congr_right fun _ => not_congr ⟨?_, fun conforms => ⟨n, found, conforms⟩⟩
  rintro ⟨k, found', conforms⟩
  cases found.symm.trans found'
  exact conforms

end

-- Lint judges the examples and defaults in an external shape as validation judges instances. The two
-- part where the document as a whole cannot be used, for then validation has nothing to say.
theorem lint_agrees {p : PatternReading} (lawful : r.engines.schema.Lawful p) (expressible : r.Expressible)
    (unlinked : r.Unlinked)
    (settled : r.Settled) {m : Memory} (reached : r.InSession m)
    (emitting : r.InSession k) (emitted : r.schema options k = (.ok document, k'))
    {out own : Option Node} (external : (r.projectDefinition name .external m).1 = .ok out)
    (internal : (r.projectDefinition name .internal m).1 = .ok own) :
    ∃ shapes report, r.Charted shapes ∧ (r.lintDefinition name m).1 = some report ∧
      Reports p shapes (out.toList.flatMap (Node.visited .root)) report.diagnostics ∧
      ∀ n, out = some n →
        (n.visited .root).map (·.2) = n.whole ∧ ((n.visited .root).map (·.1)).Nodup ∧
        ∀ i j m', n.annotations.examples[i]? = some j → r.InSession m' →
          ((∃ first rest, (r.validate name j m').1 = some (.error (.violated first rest))) ↔
            Readable p name shapes ∧ Place.root.item "examples" i ∈ reported "E002" report.diagnostics) := by
  obtain ⟨shapes, slots, chart, -, -⟩ := expressible.chart unlinked emitting emitted
  obtain ⟨report, shown, reports⟩ := lintDefinition_reports lawful expressible unlinked chart settled reached external internal
  refine ⟨shapes, report, chart.charted, shown, reports, ?_⟩
  rintro n rfl
  have found : shapes.get? name = some n := (chart.charted name n).2 ⟨m, reached, external⟩
  have ⟨piece, values⟩ := chart.visited expressible unlinked settled found _ (n.visited_self .root)
  refine ⟨Node.visited_nodes piece.tidy _, Node.visited_nodup piece.tidy piece.unlinked _, ?_⟩
  intro i j m' listed reached'
  rw [validate_violated lawful expressible unlinked chart reached' found (values.1 j (List.mem_of_getElem? listed)), reports.1,
    Option.toList_some, List.flatMap_singleton]
  refine and_congr_right fun readable => ?_
  rw [Node.rejected_root_iff piece.tidy piece.unlinked]
  rw [← accepts_readable readable found, Bool.not_eq_true]
  constructor
  · exact fun refused => ⟨j, listed, refused⟩
  · rintro ⟨j', listed', refused⟩
    cases listed.symm.trans listed'
    exact refused

section
variable {n : Node}

theorem only_unlinked (unlinked : n.Each (·.shape.isLinked = false)) : (only name n).Unlinked := fun _ _ found =>
  find?_single rfl found ▸ unlinked

theorem only_settled (settled : n.Each Node.Settled) :
    (only name n).Settled := fun _ _ found => find?_single rfl found ▸ settled

theorem only_charted {out : Node} (charted : (only name n).Charted shapes)
    (listed : shapes.get? name = some out) (found : shapes.get? other = some k) : k = out := by
  have told := (charted other k).1 found
  obtain ⟨m, session, answered⟩ := told
  have registered := (session.refersTo_registered answered).1
  cases List.mem_singleton.1 registered
  exact Option.some.inj (found.symm.trans listed)

end

def grove : Node := (tree.addExample (branch "oak" [branch "elm" []])).addExample .null

theorem grove_each {A : Node → Prop} (here : A grove) (label : A .string)
    (below : A (Node.arrayOf (.referenceTo "Tree")).optional)
    (inner : A (.referenceTo "Tree")) : grove.Each A := by
  refine Node.each_iff.2 ⟨here, List.forall_mem_cons.2 ⟨Node.each_of_bare rfl label, List.forall_mem_singleton.2 ?_⟩⟩
  exact Node.each_iff.2 ⟨below, List.forall_mem_singleton.2 (Node.each_of_bare rfl inner)⟩

theorem grove_settled : (only "Tree" grove).Settled := by
  have leaf : Json.Settled (branch "elm" []) := branch_settled nofun
  have oak : Json.Settled (branch "oak" [branch "elm" []]) := branch_settled (List.forall_mem_singleton.2 leaf)
  refine only_settled (grove_each ⟨?_, nofun⟩ ⟨nofun, nofun⟩ ⟨nofun, nofun⟩ ⟨nofun, nofun⟩)
  exact List.forall_mem_cons.2 ⟨oak, List.forall_mem_singleton.2 .null⟩

theorem grove_expressible : (only "Tree" grove).Expressible := by
  refine only_expressible (by decide) (grove_each rfl rfl rfl rfl) fun other bare => ?_
  cases bare with
  | reference same | member same | linked same => cases same

-- Of the two examples the second one is reported, and validation finds fault with it.
theorem lint_grove : ∃ report, ((only "Tree" grove).lintDefinition "Tree" .blank).1 = some report ∧
    Place.root.item "examples" 0 ∉ reported "E002" report.diagnostics ∧
      Place.root.item "examples" 1 ∈ reported "E002" report.diagnostics ∧
      ∃ first rest, ((only "Tree" grove).validate "Tree" .null .blank).1 = some (.error (.violated first rest)) := by
  have external : ((only "Tree" grove).projectDefinition "Tree" .external .blank).1 = .ok (some grove) := by cbv
  have internal : ((only "Tree" grove).projectDefinition "Tree" .internal .blank).1 = .ok (some grove) := by cbv
  have patterns : grove.patterns = [] := by cbv
  have unlinked : grove.Each (·.shape.isLinked = false) := grove_each rfl rfl rfl rfl
  have tidy : grove.Each (·.shape.Tidy) := grove_each ⟨by decide, by decide, rfl⟩ trivial trivial trivial
  have blank : (only "Tree" grove).InSession .blank := .start _
  have written : ((only "Tree" grove).schema .plain .blank).1.isOk = true := by cbv
  obtain ⟨document, m, emitted⟩ := ran_ok written
  obtain ⟨shapes, report, charted, shown, reports, each⟩ :=
    lint_agrees Engines.builtIn_lawful grove_expressible (only_unlinked unlinked) grove_settled blank blank emitted external internal
  obtain ⟨-, -, judged⟩ := each grove rfl
  have found : shapes.get? "Tree" = some grove := (charted "Tree" grove).2 ⟨.blank, blank, external⟩
  have readable : Readable .builtIn "Tree" shapes := readable_plain fun other k met => only_charted charted found met ▸ patterns
  have places : ∀ i, Place.root.item "examples" i ∈ reported "E002" report.diagnostics ↔
      ∃ j, grove.annotations.examples[i]? = some j ∧ grove.accepts .builtIn shapes j = false := by
    intro i
    rw [reports.1, Option.toList_some, List.flatMap_singleton]
    exact Node.rejected_root_iff tidy unlinked _ i
  have shape : grove.shape = tree.shape := rfl
  have elm : Conforms .builtIn meetsConstant shapes grove (branch "elm" []) := branch_conforms shape found _ (List.forall_mem_nil _)
  have oak : grove.accepts .builtIn shapes (branch "oak" [branch "elm" []]) = true :=
    (accepts_readable readable found).2 (branch_conforms shape found _ (List.forall_mem_singleton.2 elm))
  have bare : grove.accepts .builtIn shapes .null = false := by
    refine Bool.eq_false_iff.2 fun accepted => ?_
    cases (accepts_readable readable found).1 accepted
  refine ⟨report, shown, fun member => ?_, (places 1).2 ⟨_, rfl, bare⟩, ?_⟩
  · obtain ⟨j, listed, refused⟩ := (places 0).1 member
    cases listed
    rw [oak] at refused
    cases refused
  · exact (judged 1 .null .blank rfl blank).2 ⟨readable, (places 1).2 ⟨_, rfl, bare⟩⟩

open Classical in
-- What lint would report if constants were compared exactly, and if every pattern were one
-- that a schema can have.
structure LintsExactly (r : Registry) (p : PatternReading) (name : String) (m : Memory) : Prop where
  examples : ∀ out shapes report, (r.projectDefinition name .external m).1 = .ok out → r.Charted shapes →
    (r.lintDefinition name m).1 = some report → reported "E002" report.diagnostics =
      (out.toList.flatMap (Node.visited .root)).flatMap fun (place, n) =>
        n.rejectedExamples place fun j => decide (Conforms p Json.sameValue shapes n j)
  root : ∀ n i j report, (r.projectDefinition name .external m).1 = .ok (some n) → n.annotations.examples[i]? = some j →
    (r.lintDefinition name m).1 = some report →
    ((∃ first rest, (r.validate name j m).1 = some (.error (.violated first rest))) ↔
      Place.root.item "examples" i ∈ reported "E002" report.diagnostics)

theorem inexact_of_accepted {p : PatternReading} {n : Node} {i : Nat} (lawful : r.engines.schema.Lawful p)
    (expressible : r.Expressible)
    (unlinked : r.Unlinked) (settled : r.Settled)
    (written : (r.schema .plain .blank).1.isOk = true) (external : (r.projectDefinition name .external .blank).1 = .ok (some n))
    (internal : (r.projectDefinition name .internal .blank).1 = .ok own) (listed : n.annotations.examples[i]? = some j)
    (accepted : ∀ shapes, n.accepts p shapes j = true) (unmet : ∀ shapes, ¬Conforms p Json.sameValue shapes n j) :
    ¬r.LintsExactly p name .blank := by
  classical
  intro exactly
  have blank : r.InSession .blank := .start _
  obtain ⟨document, m, emitted⟩ := ran_ok written
  obtain ⟨shapes, slots, chart, -, -⟩ := expressible.chart unlinked blank emitted
  obtain ⟨report, shown, reports⟩ := lintDefinition_reports lawful expressible unlinked chart settled blank external internal
  have found : shapes.get? name = some n := (chart.charted name n).2 ⟨.blank, blank, external⟩
  have piece := chart.piece unlinked expressible found
  have same := reports.1.symm.trans (exactly.examples _ shapes report external chart.charted shown)
  rw [Option.toList_some, List.flatMap_singleton] at same
  have here := (Node.rejected_root_iff piece.tidy piece.unlinked (fun n j => decide (Conforms p Json.sameValue shapes n j)) i).2
    ⟨j, listed, decide_eq_false (unmet shapes)⟩
  obtain ⟨j', listed', refused⟩ := (Node.rejected_root_iff piece.tidy piece.unlinked (Node.accepts p shapes) i).1 (same ▸ here)
  cases listed.symm.trans listed'
  rw [accepted shapes] at refused
  cases refused

def exemplified : Node := lone.addExample neighbour

theorem exemplified_expressible : (only "D" exemplified).Expressible :=
  only_expressible (by decide) (Node.each_of_bare rfl rfl) fun _ => Node.not_bare_leaf rfl

theorem exemplified_unlinked : (only "D" exemplified).Unlinked := only_unlinked (Node.each_of_bare rfl rfl)

theorem exemplified_settled : (only "D" exemplified).Settled :=
  only_settled (Node.each_of_bare rfl ⟨List.forall_mem_singleton.2 (.number _), nofun⟩)

theorem exemplified_inexact : ¬(only "D" exemplified).LintsExactly .builtIn "D" .blank := by
  have external : ((only "D" exemplified).projectDefinition "D" .external .blank).1 = .ok (some exemplified) := by cbv
  have internal : ((only "D" exemplified).projectDefinition "D" .internal .blank).1 = .ok (some exemplified) := by cbv
  have written : ((only "D" exemplified).schema .plain .blank).1.isOk = true := by cbv
  refine inexact_of_accepted Engines.builtIn_lawful exemplified_expressible exemplified_unlinked exemplified_settled written external internal
    (show exemplified.annotations.examples[0]? = some neighbour from rfl) (fun shapes => ?_) fun shapes conforms => ?_
  · exact Node.accepts_iff.2 fun _ => .constant lone_near
  · exact lone_apart (conforms_iff.1 conforms)

-- A pattern that cannot be read, with an example that nothing is said about.
def illegible : Node := (Node.pattern .string "^*").addExample .null

theorem illegible_expressible : (only "D" illegible).Expressible :=
  only_expressible (by decide) (Node.each_of_bare rfl rfl) fun _ => Node.not_bare_leaf rfl

theorem illegible_unlinked : (only "D" illegible).Unlinked := only_unlinked (Node.each_of_bare rfl rfl)

theorem illegible_settled : (only "D" illegible).Settled :=
  only_settled (Node.each_of_bare rfl ⟨List.forall_mem_singleton.2 .null, nofun⟩)

theorem illegible_inexact : ¬(only "D" illegible).LintsExactly .builtIn "D" .blank := by
  have external : ((only "D" illegible).projectDefinition "D" .external .blank).1 = .ok (some illegible) := by cbv
  have internal : ((only "D" illegible).projectDefinition "D" .internal .blank).1 = .ok (some illegible) := by cbv
  have written : ((only "D" illegible).schema .plain .blank).1.isOk = true := by cbv
  have patterns : illegible.patterns = ["^*"] := by cbv
  have unreadable : (PatternReading.builtIn.search? "^*").isSome = false := by decide +kernel
  refine inexact_of_accepted Engines.builtIn_lawful illegible_expressible illegible_unlinked illegible_settled written external internal
    (show illegible.annotations.examples[0]? = some .null from rfl) (fun shapes => ?_) fun shapes conforms => ?_
  · exact Node.accepts_iff.2 fun legible => absurd (legible.1 "^*" (patterns ▸ List.mem_cons_self)) (Bool.eq_false_iff.1 unreadable)
  · cases conforms

-- Next to the definition there is a pattern that no schema can have.
def bell : Node := .pattern .string "\\a"
def flagged : Node := Node.null.addExample (.bool true)
def ringing : Registry := ⟨[⟨"D", flagged⟩, ⟨"E", bell⟩], by decide, .builtIn⟩

theorem ringing_each {A : Node → Prop} (first : A flagged) (second : A bell) :
    ∀ name n, ringing.find? name = some n → n.Each A := by
  have nodes : ∀ d ∈ ringing.definitions, d.node.Each A :=
    List.forall_mem_cons.2 ⟨Node.each_of_bare rfl first, List.forall_mem_singleton.2 (Node.each_of_bare rfl second)⟩
  intro name n found
  obtain ⟨d, listed, rfl⟩ := mem_of_find? found
  exact nodes d listed

theorem ringing_expressible : ringing.Expressible := by
  have ground : ∀ name n, ringing.find? name = some n → n.Each fun x => ∀ other, ¬x.Bare other :=
    ringing_each (fun _ => Node.not_bare_leaf rfl) fun _ => Node.not_bare_leaf rfl
  refine ⟨ringing_each rfl rfl, by decide, fun name cycle => ?_⟩
  obtain ⟨next, ⟨n, found, bare⟩, -⟩ := Relation.TransGen.head'_iff.1 cycle
  exact ground name n found n .self next bare

theorem ringing_unlinked : ringing.Unlinked := ringing_each rfl rfl

theorem ringing_settled : ringing.Settled := ringing_each ⟨List.forall_mem_singleton.2 (.bool _), nofun⟩ ⟨nofun, nofun⟩

def rung : Memory := ⟨["E"], ["E"], [], []⟩

theorem ringing_rung : ringing.InSession rung := by
  have flawless : bell.firstFlaw? Engines.builtIn.pattern .root = none := by decide +kernel
  have after : (ringing.resolve "E" .blank).2 = rung := resolve_first ⟨rfl, flawless⟩ List.not_mem_nil
  exact after ▸ (reached_kept ringing).resolve "E" "E" .blank (.start ringing)

theorem ringing_inexact : ¬ringing.LintsExactly .builtIn "D" rung := by
  intro exactly
  have external : (ringing.projectDefinition "D" .external rung).1 = .ok (some flagged) := by cbv
  have internal : (ringing.projectDefinition "D" .internal rung).1 = .ok (some flagged) := by cbv
  have other : (ringing.projectDefinition "E" .external rung).1 = .ok (some bell) := by cbv
  have written : (ringing.schema .plain rung).1.isOk = true := by cbv
  have patterns : flagged.patterns = [] := by cbv
  have references : flagged.references = [] := by cbv
  have patterns' : bell.patterns = ["\\a"] := by cbv
  have misspelled : PatternReading.builtIn.allowed "\\a" = false := by decide +kernel
  obtain ⟨document, m, emitted⟩ := ran_ok written
  obtain ⟨shapes, slots, chart, -, -⟩ := ringing_expressible.chart ringing_unlinked ringing_rung emitted
  obtain ⟨report, listed, reports⟩ :=
    lintDefinition_reports Engines.builtIn_lawful ringing_expressible ringing_unlinked chart ringing_settled ringing_rung external internal
  have found : shapes.get? "D" = some flagged := (chart.charted _ _).2 ⟨rung, ringing_rung, external⟩
  have beside : shapes.get? "E" = some bell := (chart.charted _ _).2 ⟨rung, ringing_rung, other⟩
  have legible : flagged.IsLegible .builtIn shapes := by
    unfold Node.IsLegible Legible
    rw [patterns, references]
    exact ⟨List.forall_mem_nil _, List.forall_mem_nil _⟩
  have refused : flagged.accepts .builtIn shapes (.bool true) = false := by
    refine Bool.eq_false_iff.2 fun accepted => ?_
    cases Node.accepts_iff.1 accepted legible
  have shown : Place.root.item "examples" 0 ∈ reported "E002" report.diagnostics := by
    have tidy : flagged.Each (·.shape.Tidy) := Node.each_of_bare rfl trivial
    rw [reports.1, Option.toList_some, List.flatMap_singleton, Node.rejected_root_iff tidy (Node.each_of_bare rfl rfl)]
    exact ⟨_, rfl, refused⟩
  have violated := (exactly.root _ 0 _ report external rfl listed).2 shown
  obtain ⟨readable, -⟩ := (validate_violated Engines.builtIn_lawful ringing_expressible ringing_unlinked chart ringing_rung found (.bool _)).1 violated
  exact Bool.false_ne_true (misspelled.symm.trans (readable.allowed "E" _ beside "\\a" (patterns' ▸ List.mem_cons_self)))

-- An inexact constant, a pattern that cannot be read, and one that is written elsewhere.
theorem lint_inexact :
    ((only "D" exemplified).Expressible ∧ (only "D" exemplified).Unlinked ∧ (only "D" exemplified).Settled ∧
      ¬(only "D" exemplified).LintsExactly .builtIn "D" .blank) ∧
    ((only "D" illegible).Expressible ∧ (only "D" illegible).Unlinked ∧ (only "D" illegible).Settled ∧
      ¬(only "D" illegible).LintsExactly .builtIn "D" .blank) ∧
    ringing.Expressible ∧ ringing.Unlinked ∧ ringing.Settled ∧ ringing.InSession rung ∧ ¬ringing.LintsExactly .builtIn "D" rung :=
  ⟨⟨exemplified_expressible, exemplified_unlinked, exemplified_settled, exemplified_inexact⟩,
    ⟨illegible_expressible, illegible_unlinked, illegible_settled, illegible_inexact⟩,
    ringing_expressible, ringing_unlinked, ringing_settled, ringing_rung, ringing_inexact⟩

end Registry
end TwinShape
