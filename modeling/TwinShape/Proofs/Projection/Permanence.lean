import TwinShape.Proofs.Projection.Idempotence

namespace TwinShape

namespace Registry
variable {r : Registry} {v : Variant} {m : Memory}

theorem project_grows (built : m.Built r) (definition : String) (n : Node) (w : Variant) :
    m.Grows r v (r.project definition n w m).2 := by
  by_cases same : w = v
  · subst same
    have run := node_projected (fun _ _ => trivial) (resolve_growing (v := w) (k := m) built)
      (fun scope name level => level ▸ presence_growing built scope name) n (.start definition []) rfl ⟨m, false⟩
    exact run.1
  · have other := project_other (r := r) same definition n m
    refine ⟨fun _ => ?_, fun {name b} known => (other name).trans known, fun {name b} known => .inl ((other name).symm.trans known)⟩
    exact project_keeps (J := Memory.Built r) (fun referencing name _ held => resolveFrom_built held referencing name)
      (fun _ _ _ held => held) definition n m built

theorem grows_kept (built : m.Built r) : Kept r (m.Grows r v) :=
  .of_projections (fun referencing name _ grown => grown.trans (.resolve referencing name))
    (fun definition n w _ grown => grown.trans (project_grows (grown.built built) definition n w))
    fun _ _ _ grown => ⟨grown.built, grown.kept, grown.new⟩

-- A reference is left in a projection only after its definition has been found present, and
-- that is remembered.
theorem project_remembers (built : m.Built r) (projected : r.project definition n v m = (.ok (some out), m')) :
    out.RefersTo fun name => m'.recallPresence (name, v) = some true := by
  have run := node_projected (fun _ _ => trivial) (resolve_growing (v := v) (k := m') built)
    (fun scope name level => level ▸ presence_growing built scope name) n (.start definition []) rfl ⟨m, false⟩
  have ⟨answer, same⟩ := Prod.mk.inj projected
  change (projectNode r v (.start definition []) n ⟨m, false⟩).1 = _ at answer
  rw [answer] at run
  have projects := run.2 .refl (same ▸ .refl)
  intro x part name shape
  have kept := projects.refersTo out rfl x part name shape
  exact (kept rfl).resolve_left List.not_mem_nil

-- Nothing more has to be found out to project what is normal and refers to what is known to be present.
theorem project_normal {n : Node} (normal : n.Each Node.Normal)
    (known : n.RefersTo fun name => m.recallPresence (name, v) = some true) (definition : String) :
    r.project definition n v m = (.ok (some n), m) := by
  have decided : ∀ (scope : Scope) name, scope.projecting = [] → m.recallPresence (name, v) = some true →
      Inquiry.Ends (· = Trail.mk m false) (fun _ => False) (· = true) (isPresent r v scope name) := by
    intro scope name _ present
    refine .intro fun t here => ?_
    subst here
    rw [isPresent_eq, present]
    exact ⟨rfl, rfl⟩
  have stays := Inquiry.Ends.elim (node_stays decided n normal known (.start definition []) rfl) rfl
  rw [project_eq]
  unfold Probe.alone
  revert stays
  rcases projectNode r v (.start definition []) n ⟨m, false⟩ with ⟨e | out, t⟩
  · exact fun stays => stays.2.elim
  · rintro ⟨rfl, rfl⟩
    rfl

end Registry

-- Projecting changes nothing about what has been projected, be it the whole or a node inside
-- of it, and whatever is asked in between; nor is anything found out by it.
theorem Session.projection_idempotent {r : Registry} {v : Variant} (reached : Session.Reached ⟨r, m⟩)
    (projected : r.project definition n v m = (.ok (some out), m')) (history : List Request) :
    ∀ x : Node, x.Part out → ∀ definition',
      r.project definition' x v (r.afterAll history m') = (.ok (some x), r.afterAll history m') := by
  intro x part definition'
  have built : m.Built r := reached.fair.built
  have normal : out.Each Node.Normal := Registry.project_tidies (congrArg Prod.fst projected)
  have refers := Registry.project_remembers built projected
  have built' : m'.Built r := by
    have grown := Registry.project_grows (v := v) built definition n v
    rw [projected] at grown
    exact grown.built built
  have grown : m'.Grows r v (r.afterAll history m') := (Registry.grows_kept built').afterAll_keeps history .refl
  refine Registry.project_normal (fun y below => normal y (below.trans part)) (fun y below name shape => ?_) definition'
  exact grown.kept (refers y (below.trans part) name shape)

-- A reference that is left although its definition has no shape stays as well.
theorem Session.projection_idempotent_leaning : ∃ out m',
    Registry.leaning.project "X" (.ofProperties [.of "b" (.referenceTo "B"), .of "a" (.referenceTo "A")]) .external
      (Registry.leaning.afterAll [.projectDefinition "X" .external] .blank) = (.ok (some out), m') ∧
    propertiesIn (.ok (some out)) = ["b"] ∧
    (Registry.leaning.project "X" out .external (Registry.leaning.afterAll [.projectDefinition "B" .external] m')).1 =
      .ok (some out) := by
  have reached : Session.Reached ⟨Registry.leaning, Registry.leaning.afterAll [.projectDefinition "X" .external] .blank⟩ :=
    .step (.start Registry.leaning) (.request (.projectDefinition "X" .external))
  have properties : propertiesIn (Registry.leaning.project "X" (.ofProperties [.of "b" (.referenceTo "B"), .of "a" (.referenceTo "A")])
      .external (Registry.leaning.afterAll [.projectDefinition "X" .external] .blank)).1 = ["b"] := by cbv
  rcases projected : Registry.leaning.project "X" (.ofProperties [.of "b" (.referenceTo "B"), .of "a" (.referenceTo "A")])
    .external (Registry.leaning.afterAll [.projectDefinition "X" .external] .blank) with ⟨_ | _ | out, m'⟩ <;>
      rw [projected] at properties
  · cases properties
  · cases properties
  · have again := Session.projection_idempotent reached projected [.projectDefinition "B" .external] out .self "X"
    exact ⟨out, m', rfl, properties, congrArg Prod.fst again⟩

end TwinShape
