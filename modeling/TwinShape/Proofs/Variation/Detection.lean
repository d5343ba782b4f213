import TwinShape.Proofs.Projection.Memory
import TwinShape.Proofs.Registry.Requests
import TwinShape.Proofs.Variation.Reach

namespace TwinShape

theorem Memory.recallVariation_cons (m : Memory) (name other : String) (apart : Bool) :
    Memory.recallVariation { m with variation := (name, apart) :: m.variation } other =
      if other = name then some apart else m.recallVariation other := by
  exact Table.get?_cons name other apart m.variation

-- A definition that is remembered not to differ is clean.
structure Memory.Honest (r : Registry) (m : Memory) : Prop where
  built : m.Built r
  clean : m.recallVariation name = some false → r.Resolves name n → r.Clean [] n

theorem Memory.honest_blank (r : Registry) : Memory.blank.Honest r := ⟨nofun, nofun⟩

namespace Registry
variable {r : Registry}

theorem honest_of_same {m m' : Memory} (honest : m.Honest r) (built : m'.Built r)
    (same : m'.variation = m.variation) : m'.Honest r := by
  refine ⟨built, fun recalled resolves => honest.clean ?_ resolves⟩
  unfold Memory.recallVariation at recalled ⊢
  rwa [same] at recalled

theorem honest_resolve {m : Memory} (honest : m.Honest r) (referencing name : String) :
    (r.resolveFrom referencing name m).2.Honest r :=
  honest_of_same honest (resolveFrom_built honest.built _ _) (resolveFrom_same _ _ _).variation

theorem honest_project {m : Memory} (honest : m.Honest r) (definition : String) (n : Node) (v : Variant) :
    (r.project definition n v m).2.Honest r :=
  project_keeps (J := Memory.Honest r) (fun referencing name _ held => honest_resolve held referencing name)
    (fun _ _ _ held => ⟨held.built, held.clean⟩) definition n m honest

theorem honest_projections {m : Memory} (honest : m.Honest r) (name : String) :
    (projectionsDiffer r name m).2.Honest r := by
  have definition : ∀ v, Inquiry.Keeps (Memory.Honest r) (r.projectDefinition name v) := fun v =>
    .bind (fun m held => honest_resolve held name name) fun n m held => honest_project held name n.val v
  rw [projectionsDiffer_eq]
  exact definition .external _ (definition .internal m honest)

theorem honest_differs {m : Memory} (honest : m.Honest r) (name : String) :
    (m.rememberContrast name .differs).Honest r := by
  refine ⟨honest.built, fun recalled resolves => ?_⟩
  rw [Memory.rememberContrast, Memory.recallVariation_cons] at recalled
  split at recalled
  · cases recalled
  · exact honest.clean recalled resolves

theorem honest_alike {m : Memory} {leaned : Bool} (honest : m.Honest r) (resolves : r.Resolves name n)
    (clean : leaned = false → r.Clean [] n) : (m.rememberContrast name (.alike leaned)).Honest r := by
  cases leaned with
  | true => exact honest
  | false =>
    refine ⟨honest.built, fun {other found} recalled resolves' => ?_⟩
    rw [Memory.rememberContrast, Memory.recallVariation_cons] at recalled
    split at recalled
    · rename_i same
      subst same
      exact resolves.unique resolves' ▸ clean rfl
    · exact honest.clean recalled resolves'

-- What a likeness rests on: on nothing, or on the definitions that are being compared.
def leanedOn (checking : List String) (leaned : Bool) : List String := if leaned then checking else []

def detection (r : Registry) : Survey r where
  covers _ := True
  memory m := m.Honest r
  node checking n contrast := ∀ leaned, contrast = .alike leaned → r.Clean (leanedOn checking leaned) n
  definition checking name contrast := ∀ leaned, contrast = .alike leaned →
    name ∈ leanedOn checking leaned ∨ ∀ n, r.Resolves name n → r.Clean (leanedOn checking leaned) n
  child _ _ := trivial
  target _ _ _ := trivial
  sound honest := honest.built.sound
  lean := by
    rintro checking n clean _ ⟨⟩
    exact (clean false rfl).fewer nofun
  restricted := nofun
  apart := nofun
  alike := by
    rintro n checking leaned _ free inner pieces _ ⟨⟩
    exact clean_of_pieces free inner fun p inside => ⟨(pieces p inside).1, (pieces p inside).2 leaned rfl⟩
  reference := by
    rintro n name checking _ _ free shape said leaned rfl
    exact clean_of_reference free shape (said leaned rfl)
  recalled := by
    rintro m _ known checking honest recalled leaned same
    cases known <;> cases same
    exact .inr fun n resolves => honest.clean recalled resolves
  busy := by
    rintro name checking met _ ⟨⟩
    exact .inl met
  missing := by
    rintro name checking none_ _ ⟨⟩
    exact .inr fun n resolves => absurd resolves (none_ n)
  resolve honest := honest_resolve honest _ _
  differs honest _ _ _ := ⟨nofun, honest_differs honest _⟩
  settled := by
    intro m name n checking leaned honest resolves _ clean
    have honest' := honest_projections honest name
    unfold settleContrast
    dsimp only
    by_cases apart : (projectionsDiffer r name m).1
    · rw [if_pos apart]
      exact ⟨nofun, honest_differs honest' _⟩
    · rw [if_neg apart]
      have here := clean leaned rfl
      constructor
      · rintro _ ⟨⟩
        refine .inr fun n' resolves' => ?_
        rw [resolves'.unique resolves]
        cases leaned with
        | false => exact here
        | true => exact here.again resolves
      · refine honest_alike honest' resolves fun without => ?_
        subst without
        exact here

theorem honest_kept (r : Registry) : Kept r (Memory.Honest r) where
  resolve referencing name _ honest := honest_resolve honest referencing name
  project definition n v _ honest := honest_project honest definition n v
  differs name m honest := ((detection r).definition_answer name (fun _ _ => trivial) [] m honest).1
  nodeDiffers n m honest := ((detection r).node_run [] n trivial m honest).1

-- Nothing restricted escapes, in whatever state the memory is.
theorem differs_of_reaches {m : Memory} (honest : m.Honest r) (reach : r.Reaches name x) (restricted : x.Restricted) :
    (r.differs name m).1 = true := by
  have said := ((detection r).definition_answer name (fun _ _ => trivial) [] m honest).2
  obtain ⟨n, resolves, reach⟩ := reach
  unfold differs
  revert said
  rcases definitionContrast r [] name m with ⟨_ | leaned, m'⟩ <;> intro said
  · rfl
  · have bare : leanedOn [] leaned = [] := by cases leaned <;> rfl
    have clean := said leaned rfl
    rw [bare] at clean
    exact absurd restricted ((clean.resolve_left List.not_mem_nil) n resolves x reach)

end Registry

theorem honest_perform {s : Session} (honest : s.memory.Honest s.registry) (o : Operation) :
    (s.perform o).memory.Honest (s.perform o).registry := by
  cases o with
  | request q => exact (Registry.honest_kept s.registry).request_keeps q honest
  | define d =>
    rcases s.perform_define d with same | ⟨r, added, same⟩
    · rw [same]
      exact honest
    · rw [same]
      refine ⟨fun name member => ?_, nofun⟩
      obtain ⟨n, resolves⟩ := honest.built name member
      exact ⟨n, resolves.define added⟩

theorem Session.Reached.honest {s : Session} (reached : s.Reached) : s.memory.Honest s.registry := by
  induction reached with
  | start r => exact Memory.honest_blank r
  | step _ o ih => exact honest_perform ih o

end TwinShape
