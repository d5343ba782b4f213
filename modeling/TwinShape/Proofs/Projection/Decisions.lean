import TwinShape.Proofs.Projection.Determinacy
import TwinShape.Proofs.Projection.Grounding

namespace TwinShape

theorem Projects.imp {r : Registry} {v : Variant} {answer answer' : String → Bool → Prop} {n : Node} {out : Option Node}
    (projects : Projects r v answer n out) (step : ∀ name present, answer name present → answer' name present) :
    Projects r v answer' n out := by
  induction projects with
  | outside out => exact .outside out
  | leaf inside bare => exact .leaf inside bare
  | kept inside shape answered => exact .kept inside shape (step _ _ answered)
  | dropped inside shape answered => exact .dropped inside shape (step _ _ answered)
  | array inside shape _ ih => exact .array inside shape ih
  | union inside members shape _ ih => exact .union inside members shape ih
  | linked inside shape _ _ first second => exact .linked inside shape first second
  | object inside parents properties shape sources _ gathered _ _ outcomes own further =>
    exact .object inside parents properties shape sources outcomes gathered own further

namespace Registry
variable {r : Registry} {v w : Variant}

-- Requests only ever decide, whether their decisions are steady or not.
theorem decisions_kept (r : Registry) (v : Variant) : Kept r (r.Decided v) := by
  refine .of_projections decided_resolve (fun definition n w m before => ?_) ?_
  · by_cases same : w = v
    · exact same ▸ (project_decides (same ▸ before) definition n).1
    · exact decided_same before (project_other same definition n m) (project_sound (decided_sound before) definition n)
  · rintro m name apart ⟨decided, alike⟩
    exact ⟨decided, ⟨alike.presence, alike.first, alike.second⟩⟩

-- Without links, decisions are right whatever was decided before.
theorem exact_of_unlinked (unlinked : r.Unlinked) (v : Variant) : r.Exact v := by
  rintro name ⟨decided, referencing, answer⟩
  have holds : r.exactness.Holds (r.decideAll v decided .blank) := by
    rw [← after_decidingRequests]
    exact r.exactness.kept.afterAll_keeps _ r.exactness.holds_blank
  have projected : (r.project referencing (.referenceTo name) v (r.decideAll v decided .blank)).1 =
      .ok (some (.referenceTo name)) := by
    rw [project_reference, answer]
    rfl
  have projects := (holds.project referencing (.referenceTo name) v).2 _ projected
  obtain ⟨present, found, same⟩ := projects.of_reference rfl rfl
  cases present with
  | false => cases same
  | true => exact (found unlinked).1 rfl

-- Where only what exists is decided to be present, a projection keeps what exists and nothing else.
theorem project_exactly (exact_ : r.Exact v) {m : Memory} (before : r.Decided v m)
    (projected : (r.project definition n v m).1 = .ok out) : Projects r v (r.Exactly v) n out := by
  refine ((project_decides before definition n).2 out projected).imp fun name present answered => ?_
  refine ⟨fun yes => exact_ name (yes ▸ answered), fun exists_ => ?_⟩
  cases present with
  | true => rfl
  | false => exact absurd exists_ (rightly_of_answered answered rfl)

theorem projectDefinition_exactly (exact_ : r.Exact v) {m : Memory} (before : r.Decided v m)
    (answered : (r.projectDefinition name v m).1 = .ok out) :
    ∃ n, r.Resolves name n ∧ Projects r v (r.Exactly v) n out := by
  obtain ⟨n, resolves, projected⟩ := projectDefinition_ok (decided_sound before) answered
  exact ⟨n, resolves, project_exactly exact_ (decided_resolve name name _ before) projected⟩

end Registry
end TwinShape
