import TwinShape.Proofs.Projection.Decisions
import TwinShape.Proofs.Variation.Exactness

namespace TwinShape

-- A memory that came about by decisions, in which nothing but what differs is remembered to differ.
structure Memory.Faithful (r : Registry) (m : Memory) : Prop where
  decided : ∀ v, r.Decided v m
  apart : m.recallVariation name = some true → ¬r.CleanName name

namespace Registry
variable {r : Registry}

theorem faithful_blank (r : Registry) : Memory.blank.Faithful r := ⟨fun _ => decided_blank, nofun⟩

theorem faithful_of_same {m m' : Memory} (faithful : m.Faithful r) (decided : ∀ v, r.Decided v m')
    (same : m'.variation = m.variation) : m'.Faithful r := by
  refine ⟨decided, fun recalled => faithful.apart ?_⟩
  unfold Memory.recallVariation at recalled ⊢
  rwa [same] at recalled

theorem faithful_resolve {m : Memory} (faithful : m.Faithful r) (referencing name : String) :
    (r.resolveFrom referencing name m).2.Faithful r :=
  faithful_of_same faithful (fun v => decided_resolve referencing name m (faithful.decided v)) (resolveFrom_same _ _ _).variation

theorem faithful_project {m : Memory} (faithful : m.Faithful r) (definition : String) (n : Node) (w : Variant) :
    (r.project definition n w m).2.Faithful r :=
  faithful_of_same faithful (fun v => (decisions_kept r v).project definition n w m (faithful.decided v))
    (project_variation definition n m)

theorem faithful_definition {m : Memory} (faithful : m.Faithful r) (name : String) (w : Variant) :
    (r.projectDefinition name w m).2.Faithful r :=
  faithful_of_same faithful (fun v => (decisions_kept r v).projectDefinition name w m (faithful.decided v))
    (definition_variation w name m)

theorem faithful_remember {m : Memory} (faithful : m.Faithful r) (contrast : Contrast)
    (differs : contrast = .differs → ¬r.CleanName name) : (m.rememberContrast name contrast).Faithful r := by
  have remembered : ∀ apart : Bool, (apart = true → ¬r.CleanName name) →
      Memory.Faithful r { m with variation := (name, apart) :: m.variation } := by
    intro apart unclean
    refine ⟨fun v => ?_, fun {other} recalled => ?_⟩
    · have sound : m.Sound r := decided_sound (faithful.decided v)
      exact decided_same (faithful.decided v) (fun _ => rfl) sound
    · rw [Memory.recallVariation_cons] at recalled
      split at recalled
      · rename_i same
        exact same ▸ unclean (Option.some.inj recalled)
      · exact faithful.apart recalled
  cases contrast with
  | differs => exact remembered true fun _ => differs rfl
  | alike leaned =>
    cases leaned with
    | false => exact remembered false nofun
    | true => exact faithful

-- Where decisions are right, the two projections of a clean definition are the same.
theorem projections_alike (exact_ : ∀ v, r.Exact v) (settled : r.Settled) (clean : r.CleanName name) {m : Memory}
    (faithful : m.Faithful r) : (projectionsDiffer r name m).1 = false := by
  rw [projectionsDiffer_eq]
  dsimp only
  have between := faithful_definition faithful name .internal
  rcases internal : r.projectDefinition name .internal m with ⟨e | inner, m₁⟩
  · rfl
  rw [internal] at between
  dsimp only at between ⊢
  rcases external : r.projectDefinition name .external m₁ with ⟨e | outer, m₂⟩
  · rfl
  have told : (r.projectDefinition name .external m₁).1 = .ok outer := congrArg Prod.fst external
  obtain ⟨n, resolves, first⟩ := projectDefinition_exactly (exact_ _) (faithful.decided _) (congrArg Prod.fst internal)
  obtain ⟨n', resolves', second⟩ := projectDefinition_exactly (exact_ _) (between.decided _) told
  cases resolves.unique resolves'
  cases exactly_determined (.inr (clean n resolves)) first second
  obtain ⟨n', resolves', projected⟩ := projectDefinition_ok (decided_sound (between.decided .external)) told
  have same : sameOption Node.same inner inner = true := by
    refine sameOption_self fun out some_ => ?_
    subst some_
    exact Node.same_of_settled (settled.projected (settled name n' resolves'.1) projected)
  exact congrArg not same

-- Comparing finds no difference in what is clean.
def judgement (exact_ : ∀ v, r.Exact v) (settled : r.Settled) : Survey r where
  covers _ := True
  memory m := m.Faithful r
  node _ n contrast := contrast = .differs → ¬r.Clean [] n
  definition _ name contrast := contrast = .differs → ¬r.CleanName name
  child _ _ := trivial
  target _ _ _ := trivial
  sound faithful := decided_sound (faithful.decided .external)
  lean _ := nofun
  restricted := fun {n _} _ restricted _ clean => clean n .here (.inl restricted)
  apart := by
    intro n p checking _ _ inside why _ clean
    rcases why with restricted | differs
    · exact clean n .here (n.restricted_iff.2 (.inr ⟨p, inside, restricted⟩))
    · exact differs rfl (clean.child (Node.mem_children_of_piece inside))
  alike _ _ _ _ := nofun
  reference _ _ shape said differs clean := said differs (clean.names shape)
  recalled := by
    intro m name known checking faithful recalled
    cases known
    · exact nofun
    · exact fun _ => faithful.apart recalled
  busy _ := nofun
  missing _ := nofun
  resolve faithful := faithful_resolve faithful _ _
  differs := by
    intro m name n checking faithful resolves _ differs
    have unclean : ¬r.CleanName name := fun clean => differs rfl (clean n resolves)
    exact ⟨fun _ => unclean, faithful_remember faithful .differs fun _ => unclean⟩
  settled := by
    intro m name n checking leaned faithful _ _ _
    unfold settleContrast
    dsimp only
    have after : (projectionsDiffer r name m).2.Faithful r := by
      rw [projectionsDiffer_eq]
      exact faithful_definition (faithful_definition faithful name .internal) name .external
    have unclean : (if (projectionsDiffer r name m).1 then Contrast.differs else .alike leaned) = .differs →
        ¬r.CleanName name := by
      intro differs clean
      rw [projections_alike exact_ settled clean faithful] at differs
      cases differs
    exact ⟨unclean, faithful_remember after _ unclean⟩

theorem faithful_kept (exact_ : ∀ v, r.Exact v) (settled : r.Settled) : Kept r (Memory.Faithful r) where
  resolve referencing name _ faithful := faithful_resolve faithful referencing name
  project definition n v _ faithful := faithful_project faithful definition n v
  differs name m faithful := ((judgement exact_ settled).definition_answer name (fun _ _ => trivial) [] m faithful).1
  nodeDiffers n m faithful := ((judgement exact_ settled).node_run [] n trivial m faithful).1

theorem unclean_of_differs (exact_ : ∀ v, r.Exact v) (settled : r.Settled) {m : Memory} (faithful : m.Faithful r)
    (found : (r.differs name m).1 = true) : ¬r.CleanName name := by
  have said := ((judgement exact_ settled).definition_answer name (fun _ _ => trivial) [] m faithful).2
  unfold differs at found
  revert said found
  rcases definitionContrast r [] name m with ⟨_ | leaned, m'⟩ <;> intro found said
  · exact said rfl
  · cases found

end Registry
end TwinShape
