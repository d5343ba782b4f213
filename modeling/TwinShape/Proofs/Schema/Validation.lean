import Mathlib
import TwinShape.Node.Builder
import TwinShape.Proofs.Projection.Memory
import TwinShape.Proofs.Schema.BuiltIn
import TwinShape.Proofs.Schema.Sheets
import TwinShape.Schema.Validation

namespace TwinShape

def Shape.isRaw : Shape ν → Bool
  | .raw .. => true
  | _ => false

-- A definition comes down to another one on the same instance.
def Registry.StandsFor (r : Registry) (name other : String) : Prop := ∃ n, r.find? name = some n ∧ n.Bare other

-- Registries whose documents say all that there is to say about their definitions.
structure Registry.Expressible (r : Registry) : Prop where
  unraw : ∀ name n, r.find? name = some n → n.Each fun x => x.shape.isRaw = false
  plain : ∀ name ∈ r.names, isPlainName name
  acyclic : ∀ name, ¬Relation.TransGen r.StandsFor name name

def Unison.unraw (r : Registry) : Unison r .external .external where
  named _ := True
  good n := n.Each fun x => x.shape.isRaw = false
  kept n := n.shape.isRaw = false
  includes _ := rfl
  property _ _ _ := rfl
  child good child := (Node.each_iff.1 good).2 _ child
  reference _ _ := trivial
  leaf := by
    intro n good _
    exact good n .self
  inner := by
    intro n s _ _ inner _ _
    change s.isRaw = false
    cases s <;> first | rfl | cases inner

structure Registry.External (r : Registry) (name : String) (n : Node) : Prop where
  registered : name ∈ r.names
  each : n.Each fun x => x.shape.Tidy ∧ x.shape.isRaw = false
  bare : ∀ other, n.Bare other → r.StandsFor name other

namespace Registry
variable {r : Registry}

theorem Expressible.external (expressible : r.Expressible) (found : r.find? name = some target)
    (ran : r.project name target .external m = (.ok (some n), m')) : r.External name n := by
  refine ⟨mem_names_of_find? found, ?_, fun other bare => ⟨target, found, ?_⟩⟩
  · exact project_out (Unison.unraw r) expressible.unraw (expressible.unraw name target found) (congrArg Prod.fst ran)
  · unfold project at ran
    dsimp only at ran
    rcases projected : projectNode r .external (.start name []) target ⟨m, false⟩ with ⟨answer, t⟩
    rw [projected] at ran
    cases ran
    exact bare_of_projected bare ⟨_, _, projected⟩

theorem External.unraw (external : r.External name n) :
    n.Each fun x => ∀ declaration schema, x.shape ≠ .raw declaration schema := by
  intro x part declaration schema same
  have unraw := (external.each x part).2
  rw [same] at unraw
  cases unraw

end Registry

-- A document that is made of these shapes, each of which can be written and refers to no others.
structure MadeOf (document : Json) (root : String) (shapes : Table Node) : Prop where
  plain : ∀ name ∈ shapes.keys, isPlainName name
  shaped : ∀ name n, shapes.get? name = some n → n.Orderly shapes.keys
  document_eq : ∃ slots, Slots .definitions [] shapes slots ∧ document = Registry.schemaDocument (.rooted root) (filledSlots slots)
  root_mem : root ∈ shapes.keys

theorem MadeOf.sheet {shapes : Table Node} (made : MadeOf document root shapes) :
    ∃ fields, document = .object fields ∧ Sheet fields (.referenceTo root) shapes := by
  obtain ⟨slots, held, written⟩ := made.document_eq
  refine ⟨_, written, made.plain, made.shaped, ⟨?_, ?_⟩, ?_, ⟨slots, held, rfl⟩, rfl, ?_⟩
  · exact .intro rfl (fun name same => Option.some.inj same ▸ made.root_mem) nofun
  · exact Node.each_iff.2 ⟨trivial, nofun⟩
  · exact (by decide : ["$schema", "$ref", "definitions"].Nodup)
  · refine List.forall_mem_cons.2 ⟨.inr (.inr rfl), List.forall_mem_cons.2 ⟨.inl ?_, List.forall_mem_singleton.2 (.inr (.inl rfl))⟩⟩
    exact List.mem_cons_self

-- All patterns are spelled as schemas spell them, and those that the root can reach can
-- be used.
structure Readable (p : PatternReading) (root : String) (shapes : Table Node) : Prop where
  allowed : ∀ name n, shapes.get? name = some n → ∀ text ∈ n.patterns, p.allowed text = true
  readable : ∀ name n, Relation.ReflTransGen (RefersTo shapes) root name → shapes.get? name = some n →
    ∀ text ∈ n.patterns, (p.search? text).isSome = true

theorem MadeOf.usable_iff {p : PatternReading} {shapes : Table Node} (made : MadeOf document root shapes) :
    document.Usable p ↔ Readable p root shapes := by
  obtain ⟨fields, rfl, sheet⟩ := made.sheet
  have dialect : Dialect.ofDocument (.object fields) = .draft07 := by
    obtain ⟨slots, -, written⟩ := made.document_eq
    rw [written]
    rfl
  have patterns : (Node.referenceTo root).patterns = [] := by cbv
  have references : (Node.referenceTo root).references = [root] := by cbv
  rw [sheet.usable_iff, dialect]
  constructor
  · rintro ⟨allowed, -, readable⟩
    rw [references] at readable
    exact ⟨fun name n known => allowed rfl n (.inr ⟨name, known⟩), readable root List.mem_cons_self⟩
  · rintro ⟨allowed, readable⟩
    refine ⟨?_, ?_, ?_⟩
    · rintro - origin (rfl | ⟨name, known⟩)
      · rw [patterns]
        exact List.forall_mem_nil _
      · exact allowed name origin known
    · rw [patterns]
      exact List.forall_mem_nil _
    · rw [references]
      exact List.forall_mem_singleton.2 readable

theorem MadeOf.accepts_iff {p : PatternReading} {shapes : Table Node} (made : MadeOf document root shapes) :
    Accepts p document document j ↔ ∃ n, shapes.get? root = some n ∧ Conforms p meetsConstant shapes n j := by
  obtain ⟨fields, rfl, sheet⟩ := made.sheet
  rw [sheet.accepts_iff, conforms_iff]
  rfl

namespace Registry
variable {r : Registry}

theorem External.orderly {names : List String} (external : r.External name n) (written : n.Written names) :
    n.Orderly names :=
  ⟨written, fun x part => (external.each x part).1⟩

-- Where no definition comes down to itself, all of them come down to something.
theorem Expressible.founded (expressible : r.Expressible) (name : String) :
    Acc (fun after before => r.StandsFor before after) name := by
  classical
  have registered : ∀ {name other}, r.StandsFor name other → name ∈ r.names := fun ⟨_, found, _⟩ => mem_names_of_find? found
  induction size : (r.names.toFinset.filter (Relation.TransGen r.StandsFor name)).card using Nat.strong_induction_on generalizing name with
  | h size ih =>
    refine ⟨_, fun other stands => ?_⟩
    by_cases known : other ∈ r.names
    · refine ih _ ?_ other rfl
      rw [← size]
      refine Finset.card_lt_card (Finset.ssubset_iff_of_subset ?_ |>.2 ⟨other, ?_, ?_⟩)
      · exact Finset.monotone_filter_right _ fun next _ comes => comes.head stands
      · exact Finset.mem_filter.2 ⟨List.mem_toFinset.2 known, .single stands⟩
      · exact fun member => expressible.acyclic other (Finset.mem_filter.1 member).2
    · exact ⟨_, fun next further => absurd (registered further) known⟩

theorem Expressible.made (expressible : r.Expressible) (emitted : r.schema (.rooted root) m = (.ok document, m')) :
    ∃ shapes, r.externalShapes root m = (.ok shapes, m') ∧ MadeOf document root shapes ∧
      ∀ name n, shapes.get? name = some n → r.External name n := by
  obtain ⟨shapes, slots, gathered, held, written, listed, each⟩ := schemaFor_shapes expressible.external External.unraw emitted
  refine ⟨shapes, gathered, ⟨fun name member => ?_, fun name n found => (each name n found).1.orderly (each name n found).2,
    ⟨slots, held, written⟩, listed root rfl⟩, fun name n found => (each name n found).1⟩
  obtain ⟨n, found⟩ := Table.mem_keys_iff.1 member
  exact expressible.plain name (each name n found).1.registered

theorem ran_ok {run : Except ε α × σ} (succeeds : run.1.isOk = true) : ∃ a s, run = (.ok a, s) := by
  obtain ⟨_ | a, s⟩ := run
  · cases succeeds
  · exact ⟨a, s, rfl⟩

theorem Expressible.emits (expressible : r.Expressible) (written : (r.schema (.rooted root) m).1.isOk = true)
    (shaped : (r.externalShapes root m).1.toOption = some shapes) :
    ∃ document m', r.schema (.rooted root) m = (.ok document, m') ∧ r.externalShapes root m = (.ok shapes, m') ∧
      MadeOf document root shapes ∧ ∀ name n, shapes.get? name = some n → r.External name n := by
  obtain ⟨document, m', emitted⟩ := ran_ok written
  obtain ⟨shapes, gathered, made, each⟩ := expressible.made emitted
  rw [gathered] at shaped
  cases shaped
  exact ⟨document, m', emitted, gathered, made, each⟩

end Registry

inductive Judged (p : PatternReading) (document j : Json) : Except Invalid Unit → Prop
  | unusable (none_ : ¬document.Usable p) : Judged p document j (.error (.unusable why))
  | valid (usable : document.Usable p) (accepted : Accepts p document document j) : Judged p document j (.ok ())
  | violated (usable : document.Usable p) (refused : ¬Accepts p document document j) : Judged p document j (.error (.violated first rest))

theorem Judged.ok_iff (judged : Judged p document j verdict) :
    verdict = .ok () ↔ document.Usable p ∧ Accepts p document document j := by
  cases judged with
  | unusable none_ => exact iff_of_false nofun fun ⟨usable, _⟩ => none_ usable
  | valid usable accepted => exact iff_of_true rfl ⟨usable, accepted⟩
  | violated usable refused => exact iff_of_false nofun fun ⟨_, accepted⟩ => refused accepted

theorem Judged.violated_iff (judged : Judged p document j verdict) :
    (∃ first rest, verdict = .error (.violated first rest)) ↔ document.Usable p ∧ ¬Accepts p document document j := by
  cases judged with
  | unusable none_ => exact iff_of_false nofun fun ⟨usable, _⟩ => none_ usable
  | valid usable accepted => exact iff_of_false nofun fun ⟨_, refused⟩ => refused accepted
  | violated usable refused => exact iff_of_true ⟨_, _, rfl⟩ ⟨usable, refused⟩

namespace SchemaEngine.Lawful
variable {engine : SchemaEngine} {p : PatternReading} (lawful : engine.Lawful p)
include lawful

theorem judges (plain : document.Plain) (settled : j.Settled)
    (ended : validateAgainst engine document j = some verdict) :
    Judged p document j verdict := by
  unfold validateAgainst at ended
  cases read : engine document with
  | error why =>
    rw [read] at ended
    cases ended
    refine .unusable fun usable => ?_
    obtain ⟨check, found⟩ := (lawful.usable document plain).2 usable
    cases read.symm.trans found
  | ok check =>
    have usable := (lawful.usable document plain).1 ⟨check, read⟩
    rw [read] at ended
    obtain ⟨found, all, same⟩ := Option.map_eq_some_iff.1 ended
    have sound := lawful.sound document check j found plain read settled all
    cases found with
    | nil =>
      cases same
      exact .valid usable (sound.1 rfl)
    | cons first rest =>
      cases same
      exact .violated usable (mt sound.2 (List.cons_ne_nil _ _))

theorem validates (plain : document.Plain) (guarded : document.Guarded) (settled : j.Settled) :
    ∃ verdict, validateAgainst engine document j = some verdict := by
  unfold validateAgainst
  cases read : engine document with
  | error why => exact ⟨_, rfl⟩
  | ok check =>
    have ends := lawful.ends document check j plain guarded read settled
    unfold Evaluation.all?
    dsimp only
    rw [ends]
    exact ⟨_, rfl⟩

theorem judges_sheet (sheet : Sheet fields n shapes) (guarded : (Json.object fields).Guarded)
    (read : engine (.object fields) = .ok check)
    (settled : j.Settled) : (check j).ends = true ∧ ((check j).found = [] ↔ Conforms p meetsConstant shapes n j) := by
  have ends := lawful.ends _ check j sheet.plain_document guarded read settled
  have all : (check j).all? = some (check j).found := by
    unfold Evaluation.all?
    rw [ends]
    rfl
  exact ⟨ends, (lawful.sound _ check j _ sheet.plain_document read settled all).trans sheet.accepts_iff⟩

end SchemaEngine.Lawful

namespace Registry
variable {r : Registry}

theorem validate_eq (emitted : r.schema (.rooted root) m = (.ok document, m')) :
    r.validate root j m = (validateAgainst r.engines.schema document j, m') := by
  have asked : r.schema { SchemaOptions.plain with root := some root } m = (.ok document, m') := emitted
  unfold validate
  rw [asked]

-- Checking against a document that is made of shapes comes to its end.
theorem Expressible.judges {p : PatternReading} (lawful : r.engines.schema.Lawful p) (expressible : r.Expressible)
    (settled : j.Settled)
    (made : MadeOf document root shapes) (each : ∀ name n, shapes.get? name = some n → r.External name n) :
    ∃ verdict, validateAgainst r.engines.schema document j = some verdict ∧ Judged p document j verdict := by
  obtain ⟨fields, rfl, sheet⟩ := made.sheet
  have guarded := sheet.guarded expressible.founded fun name n other found => (each name n found).bare other
  obtain ⟨verdict, ended⟩ := lawful.validates sheet.plain_document guarded settled
  exact ⟨verdict, ended, lawful.judges sheet.plain_document settled ended⟩

-- Validation accepts what conforms to the external shape of the definition, provided that
-- the patterns in the document can be used.
theorem validate_iff_conforms {p : PatternReading} (lawful : r.engines.schema.Lawful p) (expressible : r.Expressible)
    (settled : j.Settled) (emitted : r.schema (.rooted root) m = (.ok document, m')) :
    ∃ shapes verdict, r.externalShapes root m = (.ok shapes, m') ∧ (r.validate root j m).1 = some verdict ∧
      (verdict = .ok () ↔ Readable p root shapes ∧ ∃ n, shapes.get? root = some n ∧ Conforms p meetsConstant shapes n j) := by
  obtain ⟨shapes, gathered, made, each⟩ := expressible.made emitted
  obtain ⟨verdict, ended, judged⟩ := expressible.judges lawful settled made each
  refine ⟨shapes, verdict, gathered, ?_, ?_⟩
  · rw [validate_eq emitted]
    exact ended
  · rw [judged.ok_iff, made.usable_iff, made.accepts_iff]

def only (name : String) (n : Node) : Registry := ⟨[⟨name, n⟩], List.nodup_singleton _, .builtIn⟩

theorem only_expressible {n : Node} (plain : isPlainName name) (unraw : n.Each fun x => x.shape.isRaw = false)
    (ground : ∀ other, ¬n.Bare other) : (only name n).Expressible := by
  have same : ∀ other k, (only name n).find? other = some k → k = n := fun _ _ found => find?_single rfl found
  refine ⟨fun other k found => same other k found ▸ unraw, fun other listed => ?_, fun other cycle => ?_⟩
  · exact List.mem_singleton.1 listed ▸ plain
  · obtain ⟨next, ⟨k, found, bare⟩, -⟩ := Relation.TransGen.head'_iff.1 cycle
    exact ground next (same other k found ▸ bare)

theorem readable_plain {p : PatternReading} {shapes : Table Node}
    (free : ∀ other k, shapes.get? other = some k → k.patterns = []) :
    Readable p root shapes := by
  refine ⟨fun other k found => ?_, fun other k _ found => ?_⟩
  · rw [free other k found]
    exact List.forall_mem_nil _
  · rw [free other k found]
    exact List.forall_mem_nil _

theorem only_readable {p : PatternReading} {n : Node} (none_ : n.patterns = []) : Readable p root [(name, n)] := by
  refine readable_plain fun other k found => ?_
  cases List.mem_singleton.1 (Table.mem_of_get? found)
  exact none_

def tree : Node :=
  .ofProperties [.of "label" .string, .of "below" (Node.arrayOf (.referenceTo "Tree")).optional]

theorem tree_expressible : (only "Tree" tree).Expressible := by
  have leaf : ∀ n : Node, n.children = [] → n.shape.isRaw = false → n.Each fun x => x.shape.isRaw = false :=
    fun n none_ here => Node.each_iff.2 ⟨here, none_ ▸ nofun⟩
  refine only_expressible (by decide) (Node.each_iff.2 ⟨rfl, ?_⟩) fun other bare => ?_
  · refine List.forall_mem_cons.2 ⟨leaf _ rfl rfl, List.forall_mem_singleton.2 (Node.each_iff.2 ⟨rfl, ?_⟩)⟩
    exact List.forall_mem_singleton.2 (leaf _ rfl rfl)
  · cases bare with
    | reference same | member same | linked same => cases same

def branch (label : String) (below : List Json) : Json := .object [("label", .string label), ("below", .array below)]

theorem branch_conforms {p : PatternReading} {n : Node} (shape : n.shape = tree.shape)
    (found : shapes.get? "Tree" = some n) (label : String)
    {below : List Json} (each : ∀ j ∈ below, Conforms p meetsConstant shapes n j) :
    Conforms p meetsConstant shapes n (branch label below) := by
  obtain ⟨_, annotations, optionality, restriction, misuse⟩ := n
  cases shape
  refine conforms_iff.2 ⟨_, rfl, ?_, ?_, fun _ => ?_, nofun⟩
  · exact List.forall_mem_cons.2 ⟨fun _ => ⟨_, rfl⟩, List.forall_mem_singleton.2 nofun⟩
  · refine List.forall_mem_cons.2 ⟨fun j listed => ?_, List.forall_mem_singleton.2 fun j listed => ?_⟩
    · cases listed
      exact .string nofun
    · cases listed
      exact .array fun j member => .reference found (each j member)
  · exact List.forall_mem_cons.2 ⟨List.mem_cons_self, List.forall_mem_singleton.2 (List.mem_cons_of_mem _ List.mem_cons_self)⟩

theorem branch_settled {below : List Json} (each : ∀ j ∈ below, j.Settled) : (branch label below).Settled :=
  .object (show ["label", "below"].Nodup by decide) (List.forall_mem_cons.2 ⟨.string _, List.forall_mem_singleton.2 (.array each)⟩)

theorem validate_branch : ((only "Tree" tree).validate "Tree" (branch "oak" [branch "elm" []]) .blank).1 = some
    (.ok ()) := by
  have leaf : Json.Settled (branch "elm" []) := branch_settled nofun
  have settled : Json.Settled (branch "oak" [branch "elm" []]) := branch_settled (List.forall_mem_singleton.2 leaf)
  have written : ((only "Tree" tree).schema (.rooted "Tree") .blank).1.isOk = true := by cbv
  have shaped : ((only "Tree" tree).externalShapes "Tree" .blank).1.toOption = some [("Tree", tree)] := by cbv
  have patterns : tree.patterns = [] := by cbv
  obtain ⟨document, m', emitted, gathered, -⟩ := tree_expressible.emits written shaped
  obtain ⟨shapes, verdict, gathered', ended, decides⟩ := validate_iff_conforms Engines.builtIn_lawful tree_expressible settled emitted
  cases gathered.symm.trans gathered'
  rw [ended, decides.2 ⟨only_readable patterns, tree, rfl, ?_⟩]
  exact branch_conforms rfl rfl _ (List.forall_mem_singleton.2 (branch_conforms rfl rfl _ nofun))

-- What validation would decide if constants were compared exactly and every pattern of a
-- definition were a pattern in a schema.
def ValidatesExactly (r : Registry) (p : PatternReading) (root : String) (j : Json) (m : Memory) : Prop :=
  ∀ document m' shapes, r.schema (.rooted root) m = (.ok document, m') → r.externalShapes root m = (.ok shapes, m') →
    ((r.validate root j m).1 = some (.ok ()) ↔ ∃ n, shapes.get? root = some n ∧ Conforms p Json.sameValue shapes n j)

-- The first of two neighbouring numbers has no double of its own.
def lone : Node := .constantOf (.int ⟨9007199254740993, by decide, by decide⟩)
def neighbour : Json := .number (.whole ⟨9007199254740992, by decide, by decide⟩)

theorem lone_expressible : (only "D" lone).Expressible :=
  only_expressible (by decide) (Node.each_iff.2 ⟨rfl, nofun⟩) fun _ => Node.not_bare_leaf rfl

theorem lone_near : meetsConstant (Literal.int ⟨9007199254740993, by decide, by decide⟩).toJson neighbour = true :=
  by decide +kernel

theorem lone_apart : ¬(Literal.int ⟨9007199254740993, by decide, by decide⟩).toJson.sameValue neighbour = true :=
  by decide +kernel

theorem lone_inexact : ¬(only "D" lone).ValidatesExactly .builtIn "D" neighbour .blank := by
  intro exactly
  have written : ((only "D" lone).schema (.rooted "D") .blank).1.isOk = true := by cbv
  have shaped : ((only "D" lone).externalShapes "D" .blank).1.toOption = some [("D", lone)] := by cbv
  have patterns : lone.patterns = [] := by cbv
  obtain ⟨document, m', emitted, gathered, made, each⟩ := lone_expressible.emits written shaped
  have accepted : ((only "D" lone).validate "D" neighbour .blank).1 = some (.ok ()) := by
    obtain ⟨verdict, ended, judged⟩ := lone_expressible.judges Engines.builtIn_lawful (.number _) made each
    have valid := judged.ok_iff.2 ⟨made.usable_iff.2 (only_readable patterns), made.accepts_iff.2 ⟨lone, rfl, .constant lone_near⟩⟩
    rw [validate_eq emitted, ← valid]
    exact ended
  obtain ⟨n, found, conforms⟩ := (exactly _ _ _ emitted gathered).1 accepted
  cases found
  exact lone_apart (conforms_iff.1 conforms)

-- A repeated place is a pattern, but none in a schema.
def placed : Node := .unionOf [.pattern .string "^*", .null]

theorem placed_expressible : (only "D" placed).Expressible := by
  refine only_expressible (by decide) (Node.each_iff.2 ⟨rfl, ?_⟩) fun other bare => ?_
  · refine List.forall_mem_cons.2 ⟨Node.each_iff.2 ⟨rfl, nofun⟩, ?_⟩
    exact List.forall_mem_singleton.2 (Node.each_iff.2 ⟨rfl, nofun⟩)
  · cases bare with
    | reference same | linked same => cases same
    | member same listed inner =>
      cases same
      rcases List.mem_cons.1 listed with rfl | listed
      · cases inner with
        | reference same | member same | linked same => cases same
      · cases List.mem_singleton.1 listed
        cases inner with
        | reference same | member same | linked same => cases same

theorem placed_inexact : ¬(only "D" placed).ValidatesExactly .builtIn "D" .null .blank := by
  intro exactly
  have written : ((only "D" placed).schema (.rooted "D") .blank).1.isOk = true := by cbv
  have shaped : ((only "D" placed).externalShapes "D" .blank).1.toOption = some [("D", placed)] := by cbv
  have refused : ((only "D" placed).validate "D" .null .blank).1.map (·.isOk) = some false := by cbv
  obtain ⟨document, m', emitted, gathered, -⟩ := placed_expressible.emits written shaped
  have last : Node.null ∈ [Node.pattern .string "^*", .null] := List.mem_cons_of_mem _ List.mem_cons_self
  rw [(exactly _ _ _ emitted gathered).2 ⟨placed, rfl, .union last .null⟩] at refused
  cases refused

theorem validate_inexact :
    ((only "D" lone).Expressible ∧ ¬(only "D" lone).ValidatesExactly .builtIn "D" neighbour .blank) ∧
      (only "D" placed).Expressible ∧ ¬(only "D" placed).ValidatesExactly .builtIn "D" .null .blank :=
  ⟨⟨lone_expressible, lone_inexact⟩, placed_expressible, placed_inexact⟩

end Registry
end TwinShape
