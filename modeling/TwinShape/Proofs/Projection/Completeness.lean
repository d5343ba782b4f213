import TwinShape.Proofs.Projection.Existing
import TwinShape.Proofs.Projection.Steadiness
import TwinShape.Proofs.Projection.Verdict

namespace TwinShape

-- What is remembered to be absent does not exist.
structure Memory.Fair (r : Registry) (m : Memory) : Prop where
  built : m.Built r
  absent : m.recallPresence (name, v) = some false → name ∉ r.existing v

theorem Memory.fair_blank (r : Registry) : Memory.blank.Fair r := ⟨nofun, nofun⟩

namespace Projects
variable {r : Registry} {v : Variant} {answer : String → Bool → Prop} {P : String → Prop}

-- A node that is present comes out, if no reference is dropped that should not be.
theorem isSome_of_present {n : Node} {out : Option Node} (projects : Projects r v answer n out)
    (right : ∀ name, answer name false → ¬P name) (present : n.Present v P) : out.isSome := by
  induction projects with
  | outside out => exact absurd present.inside (by simpa [Node.outside] using out)
  | leaf | kept | object => rfl
  | dropped _ shape answered => exact absurd (present.target shape) (right _ answered)
  | array _ shape _ ih =>
    rw [Option.isSome_map]
    exact ih (present.item shape)
  | linked _ shape _ _ first second =>
    obtain ⟨here, there⟩ := present.sides shape
    obtain ⟨d, rfl⟩ := Option.isSome_iff_exists.1 (first here)
    obtain ⟨s, rfl⟩ := Option.isSome_iff_exists.1 (second there)
    rfl
  | union _ members shape _ ih =>
    obtain ⟨m, member, here⟩ := present.member shape
    obtain ⟨m, inside, rfl⟩ := List.mem_map.1 member
    obtain ⟨k, kept⟩ := Option.isSome_iff_exists.1 (ih m inside here)
    have some_ : k ∈ members.filterMap (·.2) := List.mem_filterMap.2 ⟨m, inside, kept⟩
    cases all : members.filterMap (·.2) with
    | nil => rw [all] at some_; cases some_
    | cons => rfl

theorem present_of_isSome {n : Node} {out : Option Node} (projects : Projects r v answer n out)
    (right : ∀ name, answer name true → P name) (some_ : out.isSome) : n.Present v P := by
  induction projects with
  | outside | dropped => cases some_
  | leaf inside leaf => exact .leaf inside leaf
  | kept inside shape answered => exact .reference inside shape (right _ answered)
  | object inside _ _ shape => exact .object inside shape
  | array inside shape _ ih =>
    rw [Option.isSome_map] at some_
    exact .array inside shape (ih some_)
  | @linked _ d _ s _ inside shape _ _ first second =>
    cases d with
    | none => cases some_
    | some d =>
      cases s with
      | none => cases some_
      | some s => exact .linked inside shape (first rfl) (second rfl)
  | union inside members shape _ ih =>
    cases all : members.filterMap (·.2) with
    | nil => rw [all] at some_; cases some_
    | cons k rest =>
      have here : k ∈ members.filterMap (·.2) := all ▸ List.mem_cons_self
      obtain ⟨m, member, kept⟩ := List.mem_filterMap.1 here
      refine .union inside shape (List.mem_map_of_mem member) (ih m member ?_)
      rw [kept]
      rfl

end Projects

def Registry.Rightly (r : Registry) (v : Variant) (name : String) (present : Bool) : Prop :=
  present = false → name ∉ r.existing v

namespace Registry
variable {r : Registry} {v : Variant}

-- Nothing that exists is found absent: what is still being decided counts as present, and
-- present is the answer that never loses anything.
def fairness (r : Registry) : Verdict r where
  finds v name present := r.Rightly v name present
  near _ _ _ := True
  start := trivial
  inward _ _ _ := trivial
  merging _ _ _ _ _ _ := trivial
  push _ _ _ _ := trivial
  leaning _ _ _ _ := nofun
  settled := by
    intro v name target out resolves projects none_ exists_
    obtain ⟨n, resolves', present⟩ := mem_existing_iff.1 exists_
    cases resolves.unique resolves'
    have some_ := projects.isSome_of_present (fun _ dropped => dropped rfl) present
    exact Bool.false_ne_true (none_.symm.trans some_)

theorem fair_iff {m : Memory} : m.Fair r ↔ r.fairness.Holds m := by
  refine ⟨fun fair => ⟨fair.built, ?_⟩, fun holds => ⟨holds.built, fun recalled => holds.recalled recalled rfl⟩⟩
  rintro name v present recalled rfl
  exact fair.absent recalled

theorem fair_resolve (referencing name : String) : Inquiry.Keeps (Memory.Fair r) (r.resolveFrom referencing name) :=
  fun _ fair => fair_iff.2 ((fair_iff.1 fair).resolve referencing name)

theorem presence_fairly (scope : Scope) (name : String) :
    r.fairness.keeping.Says (r.Rightly v name) (isPresent r v scope name) :=
  Verdict.presence_finds (d := r.fairness) (n := .ofShape (.reference name)) scope name trivial rfl rfl

theorem project_fairly {m : Memory} (fair : m.Fair r) (definition : String) (n : Node) (v : Variant) :
    (r.project definition n v m).2.Fair r ∧
      ∀ out, (r.project definition n v m).1 = .ok out → Projects r v (r.Rightly v) n out := by
  have ⟨kept, told⟩ := (fair_iff.1 fair).project definition n v
  exact ⟨fair_iff.2 kept, told⟩

theorem fair_kept (r : Registry) : Kept r (Memory.Fair r) := by
  have same : Memory.Fair r = r.fairness.Holds := funext fun m => propext fair_iff
  rw [same]
  exact r.fairness.kept

end Registry

theorem Session.Reached.fair {s : Session} (reached : s.Reached) : s.memory.Fair s.registry :=
  Registry.fair_iff.2 (reached.holds Registry.fairness)

-- Whatever was asked and added before, a definition that is found to have no shape has none,
-- and a projection drops a reference only if the definition that it names has none.
theorem Session.projection_loses_nothing {s : Session} (reached : s.Reached) (v : Variant) :
    (∀ name out, (s.registry.projectDefinition name v s.memory).1 = .ok out →
      (out = none → name ∉ s.registry.existing v) ∧
        ∃ n, s.registry.Resolves name n ∧ Projects s.registry v (s.registry.Rightly v) n out) ∧
    ∀ definition n out, (s.registry.project definition n v s.memory).1 = .ok out →
      Projects s.registry v (s.registry.Rightly v) n out := by
  have fair := reached.fair
  refine ⟨fun name out answered => ?_, fun definition n out => (Registry.project_fairly fair definition n v).2 out⟩
  obtain ⟨n, resolves, projected⟩ := Registry.projectDefinition_ok fair.built.sound answered
  have projects := (Registry.project_fairly (Registry.fair_resolve name name _ fair) name n v).2 out projected
  refine ⟨?_, n, resolves, projects⟩
  rintro rfl exists_
  obtain ⟨n', resolves', present⟩ := Registry.mem_existing_iff.1 exists_
  cases resolves.unique resolves'
  cases projects.isSome_of_present (fun _ dropped => dropped rfl) present

-- `A` and `B` lean on each other, and neither has an external shape.
theorem Session.projection_loses_nothing_leaning :
    (Registry.leaning.projectDefinition "A" .external
      (Registry.leaning.afterAll [.projectDefinition "X" .external] .blank)).1 = .ok none ∧
    "A" ∉ Registry.leaning.existing .external := by
  have absent : (Registry.leaning.projectDefinition "A" .external
      (Registry.leaning.afterAll [.projectDefinition "X" .external] .blank)).1 = .ok none := by cbv
  refine ⟨absent, ?_⟩
  have reached : Session.Reached ⟨Registry.leaning, Registry.leaning.afterAll [.projectDefinition "X" .external] .blank⟩ :=
    .step (.start Registry.leaning) (.request (.projectDefinition "X" .external))
  exact ((Session.projection_loses_nothing reached .external).1 "A" none absent).1 rfl

end TwinShape
