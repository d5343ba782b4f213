import TwinShape.Proofs.Projection.Idempotence
import TwinShape.Proofs.Schema.Completion
import TwinShape.Proofs.Schema.NormalForm
import TwinShape.Proofs.Schema.Validation

namespace TwinShape

theorem Node.Written.part {names : List String} {x n : Node} (written : n.Written names) (part : x.WrittenPart n) :
    x.Written names := by
  induction part with
  | self => exact written
  | inside child _ ih =>
    cases written with
    | intro _ _ inside => exact ih (inside _ child)

theorem Slots.of_get? {c : Container} {shapes shapes' : Table Node} {slots : Table (Option Json)}
    (held : Slots c [] shapes slots)
    (same : ∀ name, shapes'.get? name = shapes.get? name) : Slots c [] shapes' slots :=
  ⟨fun name => (held.slot name).trans (by rw [same]), held.distinct, List.nil_subset _⟩

-- A table of the external shapes that there are.
def Registry.Charted (r : Registry) (shapes : Table Node) : Prop :=
  ∀ name n, shapes.get? name = some n ↔ r.Tells r.InSession name .external (some n)

structure Registry.Chart (r : Registry) (shapes : Table Node) : Prop where
  charted : r.Charted shapes
  sturdy : r.Sturdy .external
  shaped : ∀ name n, shapes.get? name = some n → n.Orderly shapes.keys
  external : ∀ name n, shapes.get? name = some n → r.External name n

structure Registry.Piece (r : Registry) (shapes : Table Node) (n : Node) : Prop where
  normal : n.Each Node.Normal
  written : n.Written shapes.keys
  refers : n.RefersTo (· ∈ r.existing .external)
  common : n.Each (·.shape.isCommon)

namespace Registry
variable {r : Registry} {shapes : Table Node}

theorem informed_kept (r : Registry) : Kept r (Memory.Informed r) where
  resolve referencing name m known :=
    ⟨r.exactness.kept.resolve referencing name m known.exact_, r.listing.kept.resolve referencing name m known.listed⟩
  project definition n v m known :=
    ⟨r.exactness.kept.project definition n v m known.exact_, r.listing.kept.project definition n v m known.listed⟩
  differs name m known := ⟨r.exactness.kept.differs name m known.exact_, r.listing.kept.differs name m known.listed⟩
  nodeDiffers n m known := ⟨r.exactness.kept.nodeDiffers n m known.exact_, r.listing.kept.nodeDiffers n m known.listed⟩

theorem Charted.get?_eq {shapes' : Table Node} (charted : r.Charted shapes) (charted' : r.Charted shapes')
    (name : String) :
    shapes'.get? name = shapes.get? name :=
  Option.ext fun n => (charted' name n).trans (charted name n).symm

theorem Piece.part {x n : Node} (piece : r.Piece shapes n) (part : x.WrittenPart n) : r.Piece shapes x :=
  ⟨fun y inner => piece.normal y (inner.trans part.part), piece.written.part part,
    fun y inner => piece.refers y (inner.trans part.part), fun y inner => piece.common y (inner.trans part.part)⟩

theorem Piece.tidy (piece : r.Piece shapes n) : n.Each (·.shape.Tidy) := fun x part => (piece.normal x part).tidy

theorem Piece.orderly (piece : r.Piece shapes n) : n.Orderly shapes.keys := ⟨piece.written, piece.tidy⟩

theorem Piece.unlinked (piece : r.Piece shapes n) : n.Each (·.shape.isLinked = false) := by
  intro x part
  have common : x.shape.isCommon := piece.common x part
  cases shape : x.shape <;> rw [shape] at common <;> first | rfl | cases common

theorem Piece.unraw (piece : r.Piece shapes n) :
    n.Each fun x => ∀ declaration schema, x.shape ≠ .raw declaration schema := by
  intro x part declaration schema shape
  have common : x.shape.isCommon := piece.common x part
  rw [shape] at common
  cases common

theorem Chart.plain (chart : r.Chart shapes) (expressible : r.Expressible) :
    ∀ name ∈ shapes.keys, isPlainName name := by
  intro name member
  obtain ⟨n, found⟩ := Table.mem_keys_iff.1 member
  exact expressible.plain name (chart.external name n found).registered

theorem Chart.bare (chart : r.Chart shapes) :
    ∀ name k other, shapes.get? name = some k → k.Bare other → r.StandsFor name other :=
  fun name k other found => (chart.external name k found).bare other

section
variable (unlinked : r.Unlinked)
include unlinked

theorem Expressible.common (expressible : r.Expressible) : r.Throughout (·.shape.isCommon) := by
  intro name n found x part
  have unraw : x.shape.isRaw = false := expressible.unraw name n found x part
  have single : x.shape.isLinked = false := unlinked name n found x part
  cases shape : x.shape with
  | raw declaration schema =>
    rw [shape] at unraw
    cases unraw
  | linked declaration schema =>
    rw [shape] at single
    cases single
  | _ => rfl

theorem informed_projects {m : Memory} (informed : m.Informed r) (ran : (r.project definition n v m).1 = .ok out) :
    Projects r v (r.Exactly v) n out := by
  have finds : r.exactness.finds v = r.Exactly v :=
    funext fun _ => funext fun _ => propext ⟨fun found => found unlinked, fun found _ => found⟩
  exact finds ▸ (informed.exact_.project definition n v).2 out ran

-- Whatever is known, a definition comes to what a session comes to.
theorem tells_of_project (sturdy : r.Sturdy v) {m : Memory} (informed : m.Informed r) (resolves : r.Resolves name n)
    (ran : (r.project name n v m).1 = .ok out) : r.Tells r.InSession name v out := by
  have blank : r.InSession .blank := .start r
  have resolved : (r.resolve name .blank).2.Informed r := informed_resolve blank.informed name name
  obtain ⟨out', first⟩ := project_sturdy unlinked sturdy resolved resolves
  have same := exactly_determined (.inl rfl) (informed_projects unlinked resolved first) (informed_projects unlinked informed ran)
  refine ⟨.blank, blank, ?_⟩
  rw [projectDefinition_of_resolves (Memory.sound_blank r) resolves, first, same]

-- What a document is made of is a chart, if all definitions were asked for.
theorem Expressible.chart (expressible : r.Expressible) (reached : r.InSession m)
    (emitted : r.schema options m = (.ok document, m')) :
    ∃ shapes slots, r.Chart shapes ∧ Slots options.container [] shapes slots ∧
      document = schemaDocument options (filledSlots slots) := by
  obtain ⟨shapes, slots, gathered, held, made, -, each⟩ := schemaFor_shapes expressible.external External.unraw emitted
  have ⟨⟨_, known⟩, all⟩ := gatherShapes_tells (reached_kept r) gathered reached
  have told : ∀ {name n}, shapes.get? name = some n → r.Tells r.InSession name .external (some n) := fun found =>
    (known _ _ (Table.mem_of_get? found)).resolve_left List.not_mem_nil
  refine ⟨shapes, slots, ⟨fun name n => ⟨told, fun tells => ?_⟩, fun name registered => ?_,
    fun name n found => (each name n found).1.orderly (each name n found).2, fun name n found => (each name n found).1⟩, held, made⟩
  · obtain ⟨m₁, session, answered⟩ := tells
    have registered := (session.refersTo_registered answered).1
    rcases all name (List.mem_append_left _ registered) with met | none_
    · obtain ⟨n', found⟩ := Table.mem_keys_iff.1 met
      cases projection_determined unlinked (.inl rfl) (told found) ⟨m₁, session, answered⟩
      exact found
    · cases projection_determined unlinked (.inl rfl) none_ ⟨m₁, session, answered⟩
  · have some_ : ∃ out, r.Tells r.InSession name .external out := by
      rcases all name (List.mem_append_left _ registered) with met | none_
      · obtain ⟨n, found⟩ := Table.mem_keys_iff.1 met
        exact ⟨_, told found⟩
      · exact ⟨_, none_⟩
    obtain ⟨out, m₁, session, answered⟩ := some_
    exact ⟨m₁, out, session.informed, answered⟩

namespace Chart
variable (chart : r.Chart shapes)
include chart

theorem piece (expressible : r.Expressible) (found : shapes.get? name = some n) : r.Piece shapes n := by
  have told := (chart.charted name n).1 found
  obtain ⟨own, resolves, projects⟩ := projects_exactly unlinked told
  obtain ⟨m, reached, answered⟩ := told
  obtain ⟨target, -, projected⟩ := projectDefinition_ok reached.informed.exact_.built.sound answered
  have common := expressible.common unlinked
  refine ⟨project_tidies projected, (chart.shaped name n found).written, fun x part other shape => ?_,
    projects.common common (common name own resolves.1) n rfl⟩
  exact (projects.refersTo n rfl x part other shape).1 rfl

theorem absent {m : Memory} (informed : m.Informed r) (resolves : r.Resolves name n)
    (ran : (r.project name n .external m).1 = .ok none) : name ∉ shapes.keys := by
  intro member
  obtain ⟨k, found⟩ := Table.mem_keys_iff.1 member
  cases projection_determined unlinked (.inl rfl) (tells_of_project unlinked chart.sturdy informed resolves ran)
    ((chart.charted name k).1 found)

-- Writing comes to its end, whatever is known by then.
def completion : Completion r where
  memory := Memory.Informed r
  fault _ := False
  good n := n.Written shapes.keys
  named name := name ∈ r.names
  lacking name := name ∉ shapes.keys
  child := by
    rintro n c ⟨_, _, inside⟩ member
    exact inside c member
  reference := by
    rintro n name ⟨_, known, _⟩ shape
    have listed : name ∈ shapes.keys := known name (by unfold Node.referenceName?; rw [shape])
    obtain ⟨k, found⟩ := Table.mem_keys_iff.1 listed
    exact ⟨(chart.external name k found).registered, fun lacking => lacking listed⟩
  unwritable := by
    rintro n e ⟨expressible, _, _⟩ unwritable _
    rw [Shape.writable_of_expressible expressible] at unwritable
    cases unwritable
  resolve := by
    intro name registered
    refine Inquiry.Ends.intro fun m informed => ⟨informed_resolve informed name name, ?_⟩
    obtain ⟨m₀, out, before, answered⟩ := chart.sturdy name registered
    obtain ⟨n, resolves, -⟩ := projectDefinition_ok before.exact_.built.sound answered
    have found := (resolveFrom_answer informed.exact_.built.sound name name).trans (resolution_of_resolves resolves name)
    change (r.resolve name m).1 = _ at found
    rw [found]
    exact resolves
  project := by
    intro name n registered resolves
    refine Inquiry.Ends.intro fun m informed => ⟨(informed_kept r).project name n .external m informed, ?_⟩
    obtain ⟨out, ran⟩ := project_sturdy unlinked chart.sturdy informed resolves
    rw [ran]
    refine ⟨fun none_ => chart.absent unlinked informed resolves (none_ ▸ ran), fun k some_ => ?_⟩
    have told := tells_of_project unlinked chart.sturdy informed resolves ran
    exact (chart.shaped name k ((chart.charted name k).2 (some_ ▸ told))).written

theorem schemaFor_ends {m : Memory} (informed : m.Informed r) {names : List String}
    (registered : ∀ name ∈ names, name ∈ r.names)
    (options : SchemaOptions) (rooted : ∀ root, options.root = some root → root ∈ shapes.keys) :
    ∃ document m', r.schemaFor names options m = (.ok document, m') := by
  let run := chart.completion unlinked
  have root : run.Ends (fun _ => True) (r.collectRoot options.container options.root) := by
    cases given : options.root with
    | none => exact .pure trivial
    | some name =>
      have listed := rooted name given
      obtain ⟨n, found⟩ := Table.mem_keys_iff.1 listed
      have registered : name ∈ r.names := (chart.external name n found).registered
      refine .bind (run.definition_ends _ registered) fun written lacking => ?_
      cases written with
      | true => exact .pure trivial
      | false => exact absurd listed (lacking rfl)
  have all : run.Ends (fun _ => True)
      (r.collectAll options.container names >>= fun _ => r.collectRoot options.container options.root) :=
    .bind (run.collectAll_ends _ registered) fun _ _ => root
  have ended := (Inquiry.Ends.elim all (s := ⟨m, []⟩) informed).2
  unfold schemaFor
  dsimp only
  revert ended
  rcases (r.collectAll options.container names >>= fun _ => r.collectRoot options.container options.root) ⟨m, []⟩ with ⟨e | a, d⟩ <;>
    intro ended
  · exact ended.elim
  · exact ⟨_, _, rfl⟩

theorem emits (expressible : r.Expressible) {m : Memory} (reached : r.InSession m) (options : SchemaOptions)
    (rooted : ∀ root, options.root = some root → root ∈ shapes.keys) :
    ∃ slots m', Slots options.container [] shapes slots ∧
      r.schema options m = (.ok (schemaDocument options (filledSlots slots)), m') := by
  obtain ⟨document, m', emitted⟩ := chart.schemaFor_ends unlinked reached.informed (fun _ => id) options rooted
  obtain ⟨shapes', slots, chart', held, rfl⟩ := expressible.chart unlinked reached emitted
  exact ⟨slots, m', held.of_get? (chart'.charted.get?_eq chart.charted), emitted⟩

-- The schema of a node by itself: it is projected again, which changes nothing.
theorem nodeSchema_eq {m : Memory} (informed : m.Informed r) (piece : r.Piece shapes n) (definition : String)
    (c : Container) :
    (r.nodeSchema definition n c m).1 = .ok (some (n.written c)) := by
  have ⟨same, known⟩ := project_again unlinked chart.sturdy definition piece.normal piece.refers informed
  have ended : ∃ schema, (r.nodeSchema definition n c m).1 = .ok (some schema) := by
    unfold nodeSchema
    revert same known
    rcases r.project definition n .external m with ⟨_ | _ | out, m₁⟩ <;> intro same known <;> cases same
    have ended := (Inquiry.Ends.elim ((chart.completion unlinked).schema_ends ⟨c, [], definition⟩ n piece.written) (s := ⟨m₁, []⟩) known).2
    dsimp only
    revert ended
    rcases schemaOf r ⟨c, [], definition⟩ n ⟨m₁, []⟩ with ⟨e | schema, d⟩ <;> intro ended
    · exact ended.elim
    · exact ⟨schema, rfl⟩
  obtain ⟨schema, written⟩ := ended
  obtain ⟨out, projected, rfl⟩ := nodeSchema_finished written
  cases same.symm.trans projected
  rw [written, Node.schema_eq_written c piece.unraw]

end Chart
end
end Registry
end TwinShape
