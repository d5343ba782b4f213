import TwinShape.Proofs.Projection.References

namespace TwinShape
namespace Registry

-- A definition has a projection, now and after whatever is asked next.
def Stands (r : Registry) (v : Variant) (history : List Request) (name : String) : Prop :=
  ∀ later, ∃ own, (r.projectDefinition name v (r.afterAll (history ++ later) .blank)).1 = .ok (some own)

-- A reference that is left in a projection names a definition that has one itself.
def Grounded (r : Registry) (v : Variant) : Prop :=
  ∀ history,
    (∀ name out, (r.projectDefinition name v (r.afterAll history .blank)).1 = .ok (some out) →
      out.RefersTo (r.Stands v history)) ∧
    ∀ definition n out, (r.project definition n v (r.afterAll history .blank)).1 = .ok (some out) →
      out.RefersTo (r.Stands v history)

def Projectable (r : Registry) (v : Variant) : Prop :=
  ∀ history, ∀ name ∈ r.names,
    (∃ out, (r.projectDefinition name v (r.afterAll history .blank)).1 = .ok out) ∧
    ∀ definition, ∃ out, (r.project definition (.referenceTo name) v (r.afterAll history .blank)).1 = .ok out

def Answered (r : Registry) (v : Variant) (name : String) (present : Bool) : Prop :=
  ∃ decided referencing, (r.presenceFrom referencing name v (r.decideAll v decided .blank)).1 = .ok present

-- What is decided to be present exists.
def Exact (r : Registry) (v : Variant) : Prop := ∀ name, r.Answered v name true → name ∈ r.existing v

variable {r : Registry} {v : Variant}

theorem answered_of_decided {m : Memory} (before : r.Decided v m)
    (answer : (r.presenceFrom referencing name v m).1 = .ok present) : r.Answered v name present := by
  obtain ⟨decided, alike⟩ := before
  exact ⟨decided, referencing, (presence_alike alike referencing name).1.symm.trans answer⟩

theorem fair_decideAll (r : Registry) (v : Variant) (decided : List String) : (r.decideAll v decided .blank).Fair r :=
  after_decidingRequests (r := r) (v := v) decided .blank ▸ (fair_kept r).afterAll_keeps _ (Memory.fair_blank r)

-- Nothing that exists is ever decided to be absent.
theorem rightly_of_answered (answered : r.Answered v name present) : r.Rightly v name present := by
  obtain ⟨decided, referencing, answer⟩ := answered
  unfold presenceFrom Probe.alone at answer
  exact (Course.keeping_elim (presence_fairly (.start referencing []) name) r.fairness.holds_blank
    (s := ⟨r.decideAll v decided .blank, false⟩) (fair_iff.1 (fair_decideAll r v decided))).2 present answer

theorem project_decides {m : Memory} (before : r.Decided v m) (definition : String) (n : Node) :
    r.Decided v (r.project definition n v m).2 ∧
      ∀ out, (r.project definition n v m).1 = .ok out → Projects r v (r.Answered v) n out := by
  let decides : Course Trail Fault := Course.keeping (fun t => r.Decided v t.memory) ⟨.blank, false⟩
  have resolve : ∀ definition name, decides.Says (fun target => r.Resolves name target.val)
      (Probe.ask (r.resolveFrom definition name)) := fun definition name =>
    Course.keeping_intro decided_blank fun t before => ⟨decided_resolve definition name _ before, fun target found =>
      resolution_ok ((resolveFrom_answer (decided_sound before) definition name).symm.trans found)⟩
  have present : ∀ scope name, scope.projecting = [] →
      decides.Says (r.Answered v name) (isPresent r v scope name) := by
    intro scope name outermost
    refine Course.keeping_intro decided_blank fun t before => ?_
    have ⟨answer, after⟩ := isPresent_decides (r := r) (v := v) outermost name t
    rw [answer, after]
    exact ⟨decided_presence before _ _, fun _ => answered_of_decided before⟩
  rw [project_eq]
  exact Course.keeping_elim (node_projected (fun _ _ => trivial) resolve present n (.start definition []) rfl)
    decided_blank (s := ⟨m, false⟩) before

-- Where decisions are steady, the definitions that are found present support each other.
theorem exact_of_steady (steady : r.Steady v) : r.Exact v := by
  have supports : {name | ∃ referencing, (r.presenceFrom referencing name v .blank).1 = .ok true} ⊆ r.existing v := by
    refine subset_existing ?_
    rintro name ⟨referencing, present⟩
    have same : r.decideAll v [name] .blank = (r.presenceFrom referencing name v .blank).2 := presenceFrom_memory _ _ _ _
    obtain ⟨n, resolves, here⟩ := supported_of_presence (m := .blank) nofun rfl (Prod.ext present rfl)
    refine ⟨n, resolves, here.mono fun other known => ⟨other, ?_⟩⟩
    rw [← steady [name], same, presenceFrom_eq, known]
  rintro name ⟨decided, referencing, present⟩
  exact supports ⟨referencing, (steady decided referencing name).symm.trans present⟩

-- Where references are grounded, whatever is ever found present is projected at once, and
-- that by decisions alone.
theorem exact_of_grounded (grounded : r.Grounded v) : r.Exact v := by
  have supports : {name | r.Answered v name true} ⊆ r.existing v := by
    refine subset_existing ?_
    rintro name ⟨decided, referencing, present⟩
    have stands : r.Stands v (decidingRequests v decided) name := by
      refine (grounded _).2 referencing (.referenceTo name) (.referenceTo name) ?_ _ .self name rfl
      rw [after_decidingRequests, project_reference, present]
      rfl
    obtain ⟨own, projected⟩ := stands []
    rw [List.append_nil, after_decidingRequests] at projected
    have sound := (fair_decideAll r v decided).built.sound
    have before : r.Decided v (r.decideAll v decided .blank) := ⟨decided, fun _ => rfl, sound, sound⟩
    obtain ⟨n, resolves, projected⟩ := projectDefinition_ok sound projected
    have projects := (project_decides (decided_resolve name name _ before) name n).2 _ projected
    exact ⟨n, resolves, projects.present_of_isSome (fun _ answered => answered) rfl⟩
  exact fun _ answered => supports answered

theorem projectDefinition_of_existing {m : Memory} (fair : m.Fair r) (exists_ : name ∈ r.existing v)
    (projected : (r.projectDefinition name v m).1 = .ok out) : ∃ own, out = some own := by
  obtain ⟨n, resolves, projected⟩ := projectDefinition_ok fair.built.sound projected
  obtain ⟨n', resolves', present⟩ := mem_existing_iff.1 exists_
  cases resolves.unique resolves'
  have projects := (project_fairly (fair_resolve name name _ fair) name n v).2 _ projected
  exact Option.isSome_iff_exists.1 (projects.isSome_of_present (fun _ dropped => dropped rfl) present)

theorem refersTo_existing (exact_ : r.Exact v) {m : Memory} (before : r.Decided v m)
    (projected : (r.project definition n v m).1 = .ok (some out)) : out.RefersTo (· ∈ r.existing v) := by
  have refers := ((project_decides before definition n).2 _ projected).refersTo out rfl
  exact fun x part name shape => exact_ name (refers x part name shape)

theorem registered_of_existing (exists_ : name ∈ r.existing v) : name ∈ r.names := by
  obtain ⟨n, resolves, _⟩ := mem_existing_iff.1 exists_
  exact r.mem_names_of_find? resolves.1

theorem decided_afterAll (steady : r.Steady v) (history : List Request) : r.Decided v (r.afterAll history .blank) :=
  (decided_kept steady).afterAll_keeps history decided_blank

theorem fair_afterAll (r : Registry) (history : List Request) : (r.afterAll history .blank).Fair r :=
  (fair_kept r).afterAll_keeps history (Memory.fair_blank r)

theorem grounded_of_steady (projectable : r.Projectable v) (steady : r.Steady v) : r.Grounded v := by
  have exact_ := exact_of_steady steady
  have stands : ∀ history name, name ∈ r.existing v → r.Stands v history name := by
    intro history name exists_ later
    obtain ⟨out, projected⟩ := (projectable (history ++ later) name (registered_of_existing exists_)).1
    obtain ⟨own, rfl⟩ := projectDefinition_of_existing (fair_afterAll r _) exists_ projected
    exact ⟨own, projected⟩
  intro history
  have before := decided_afterAll steady history
  refine ⟨fun name out projected => ?_, fun definition n out projected => ?_⟩
  · obtain ⟨n, _, projected⟩ := projectDefinition_ok (decided_sound before) projected
    have refers := refersTo_existing exact_ (decided_resolve name name _ before) projected
    exact fun x part other shape => stands history other (refers x part other shape)
  · have refers := refersTo_existing exact_ before projected
    exact fun x part other shape => stands history other (refers x part other shape)

theorem decideAll_unregistered (unregistered : name ∉ r.names) (decided : List String) :
    (r.decideAll v decided .blank).recallPresence (name, v) = none := by
  have grows : Memory.blank.Grows r v (r.decideAll v decided .blank) := by
    induction decided using List.reverseRecOn with
    | nil => exact .refl
    | append_singleton before other ih =>
      rw [decideAll_append]
      exact ih.trans (presenceFrom_grows (fair_decideAll r v before).built other other)
  cases recalled : (r.decideAll v decided .blank).recallPresence (name, v) with
  | none => rfl
  | some b =>
    rcases grows.new recalled with known | registered
    · cases known
    · exact absurd registered unregistered

theorem presence_unregistered (unregistered : name ∉ r.names) (decided : List String) (referencing : String) :
    (r.presenceFrom referencing name v (r.decideAll v decided .blank)).1 = .error (.unknownDefinition referencing name) := by
  have missing := (resolveFrom_answer (fair_decideAll r v decided).built.sound referencing name).trans
    (resolution_missing (find?_unregistered unregistered) referencing)
  rw [presenceFrom_eq, decideAll_unregistered unregistered]
  dsimp only
  revert missing
  rcases r.resolveFrom referencing name (r.decideAll v decided .blank) with ⟨e | target, m⟩ <;> intro missing
  · exact congrArg Except.error (Except.error.inj missing)
  · cases missing

-- Decisions without error tell what exists, so they cannot depend on anything else.
theorem steady_of_exact (projectable : r.Projectable v) (exact_ : r.Exact v) : r.Steady v := by
  have settled : ∀ decided referencing name, name ∈ r.names → ∃ present,
      (r.presenceFrom referencing name v (r.decideAll v decided .blank)).1 = .ok present ∧
        (present = true ↔ name ∈ r.existing v) := by
    intro decided referencing name registered
    obtain ⟨out, projected⟩ := (projectable (decidingRequests v decided) name registered).2 referencing
    rw [after_decidingRequests, project_reference] at projected
    cases answer : (r.presenceFrom referencing name v (r.decideAll v decided .blank)).1 with
    | error e => rw [answer] at projected; cases projected
    | ok present =>
      have answered : r.Answered v name present := ⟨decided, referencing, answer⟩
      refine ⟨present, rfl, fun yes => exact_ name (yes ▸ answered), fun exists_ => ?_⟩
      cases present with
      | true => rfl
      | false => exact absurd exists_ (rightly_of_answered answered rfl)
  intro decided referencing name
  by_cases registered : name ∈ r.names
  · obtain ⟨a, first, iff_⟩ := settled decided referencing name registered
    obtain ⟨b, second, iff_'⟩ := settled [] referencing name registered
    have same : a = b := Bool.eq_iff_iff.2 (iff_.trans iff_'.symm)
    exact first.trans (same ▸ second.symm)
  · exact (presence_unregistered registered decided referencing).trans (presence_unregistered registered [] referencing).symm

theorem grounded_iff_steady (projectable : r.Projectable v) : r.Grounded v ↔ r.Steady v :=
  ⟨fun grounded => steady_of_exact projectable (exact_of_grounded grounded), grounded_of_steady projectable⟩

end Registry
end TwinShape
