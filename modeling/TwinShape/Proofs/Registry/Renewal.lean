import TwinShape.Proofs.Projection.Completeness
import TwinShape.Schema.Evaluator

namespace TwinShape

-- Memories that tell the same. They need not know the same definitions to be built.
structure Memory.Equivalent (r : Registry) (m n : Memory) : Prop where
  presence : ∀ key, m.recallPresence key = n.recallPresence key
  variation : ∀ name, m.recallVariation name = n.recallVariation name
  first : m.Built r
  second : n.Built r

theorem Memory.recallVariation_remember {m n : Memory} (same : ∀ name, m.recallVariation name = n.recallVariation name)
    (name : String) (contrast : Contrast) (other : String) :
    (m.rememberContrast name contrast).recallVariation other = (n.rememberContrast name contrast).recallVariation other := by
  have remembered : ∀ apart, ((name, apart) :: m.variation).lookup other = ((name, apart) :: n.variation).lookup other := by
    intro apart
    rw [List.lookup_cons, List.lookup_cons, show m.variation.lookup other = n.variation.lookup other from same other]
  rcases contrast with _ | _ | _
  · exact remembered true
  · exact remembered false
  · exact same other

namespace Registry

theorem equivalent_interchangeable (r : Registry) : Interchangeable r (Memory.Equivalent r) := by
  have resolve : ∀ referencing name, Consistent (Memory.Equivalent r) (r.resolveFrom referencing name) := by
    intro referencing name m n same
    have left := resolveFrom_same (r := r) referencing name m
    have right := resolveFrom_same (r := r) referencing name n
    refine ⟨?_, ⟨fun key => ?_, fun other => ?_, resolveFrom_built same.first _ _, resolveFrom_built same.second _ _⟩⟩
    · exact (resolveFrom_answer same.first.sound referencing name).trans (resolveFrom_answer same.second.sound referencing name).symm
    · rw [recall_of_same left, recall_of_same right, same.presence]
    · unfold Memory.recallVariation
      rw [left.variation, right.variation]
      exact same.variation other
  refine .of_projections resolve (fun definition n v => ?_) (fun same => same.variation) fun same name contrast => ?_
  · refine project_consistent resolve (fun same name => same.presence (name, v)) (fun same name b => ?_) definition n
    refine ⟨fun key => ?_, same.variation, same.first, same.second⟩
    rw [Memory.recall_remember, Memory.recall_remember, same.presence]
  · refine ⟨fun key => ?_, Memory.recallVariation_remember same.variation name contrast, ?_, ?_⟩
    · rcases contrast with _ | _ | _ <;> exact same.presence key
    · rcases contrast with _ | _ | _ <;> exact same.first
    · rcases contrast with _ | _ | _ <;> exact same.second

theorem built_define {r r' : Registry} {m : Memory} (built : m.Built r) (added : r.define d = .ok r') :
    m.forgetAnswers.Built r' := by
  intro name member
  obtain ⟨n, resolves⟩ := built name member
  exact ⟨n, resolves.define added⟩

theorem define_new {r : Registry} {d : Definition} (new : d.name ∉ r.names) :
    ∃ r', r.define d = .ok r' ∧ r'.definitions = r.definitions ++ [d] := by
  unfold define
  exact ⟨_, dif_neg new, rfl⟩

theorem define_definitions {r r' : Registry} (added : r.define d = .ok r') : r'.definitions = r.definitions ++ [d] := by
  unfold define at added
  split at added <;> cases added
  rfl

theorem eq_of_definitions {r r' : Registry} (same : r.definitions = r'.definitions)
    (engines : r.engines = r'.engines) : r = r' := by
  cases r
  cases r'
  cases same
  cases engines
  rfl

end Registry

namespace Session

def answer (s : Session) (q : Request) : q.Answer := (q.reply s.registry s.memory).1

def performAll (s : Session) (history : List Operation) : Session := history.foldl perform s

structure Equivalent (s t : Session) : Prop where
  registry : s.registry = t.registry
  memory : s.memory.Equivalent s.registry t.memory

namespace Equivalent
variable {s t : Session}

theorem perform (same : s.Equivalent t) (o : Operation) : (s.perform o).Equivalent (t.perform o) := by
  obtain ⟨r, m⟩ := s
  obtain ⟨_, n⟩ := t
  obtain ⟨rfl, memory⟩ := same
  cases o with
  | request q =>
    refine ⟨rfl, ?_⟩
    have after := (r.equivalent_interchangeable.request q m n memory).2
    rw [q.reply_after, q.reply_after] at after
    exact after
  | define d =>
    unfold Session.perform define
    dsimp only
    cases added : r.define d with
    | error fault => exact ⟨rfl, memory⟩
    | ok r' =>
      exact ⟨rfl, fun _ => rfl, fun _ => rfl, Registry.built_define memory.first added, Registry.built_define memory.second added⟩

theorem performAll (same : s.Equivalent t) (history : List Operation) :
    (s.performAll history).Equivalent (t.performAll history) := by
  induction history generalizing s t with
  | nil => exact same
  | cons o rest ih => exact ih (same.perform o)

theorem answer (same : s.Equivalent t) (q : Request) : s.answer q = t.answer q := by
  obtain ⟨r, m⟩ := s
  obtain ⟨_, n⟩ := t
  obtain ⟨rfl, memory⟩ := same
  exact (r.equivalent_interchangeable.request q m n memory).1

end Equivalent

theorem defineAll_fresh {r before : Registry} {rest : List Definition}
    (split : r.definitions = before.definitions ++ rest)
    (engines : r.engines = before.engines) : (start before).defineAll rest = (none, start r) := by
  induction rest generalizing before with
  | nil =>
    cases Registry.eq_of_definitions (split.trans (List.append_nil _)) engines
    rfl
  | cons d rest ih =>
    have new : d.name ∉ before.names := by
      have distinct := r.distinct
      rw [split, List.map_append, List.nodup_append] at distinct
      exact fun known => distinct.2.2 _ known _ (List.mem_cons_self) rfl
    obtain ⟨r', added, definitions⟩ := Registry.define_new new
    have split' : r.definitions = r'.definitions ++ rest := by
      rw [split, definitions, List.append_assoc]
      rfl
    have more := ih split' (engines.trans (Registry.define_engines added).symm)
    rw [defineAll]
    unfold define start
    rw [added]
    exact more

-- A definition that is added makes the session tell what a freshly built one would, now and after
-- every further operation.
theorem define_renews {s : Session} (reached : s.Reached) (d : Definition) :
    (d.name ∈ s.registry.names →
      s.define d = .error (.duplicateDefinition d.name) ∧ s.perform (.define d) = s ∧
      ∀ later q, ((s.perform (.define d)).performAll later).answer q = (s.performAll later).answer q) ∧
    (d.name ∉ s.registry.names → ∃ s' fresh,
      s.define d = .ok s' ∧ s'.registry.definitions = s.registry.definitions ++ [d] ∧
      (start (.empty s.registry.engines)).defineAll s'.registry.definitions = (none, fresh) ∧
      ∀ later q, (s'.performAll later).answer q = (fresh.performAll later).answer q) := by
  constructor
  · intro registered
    have refused : s.define d = .error (.duplicateDefinition d.name) := by
      have same : s.registry.define d = .error (.duplicateDefinition d.name) := dif_pos registered
      unfold define
      rw [same]
      rfl
    have same : s.perform (.define d) = s := by
      unfold perform
      dsimp only
      rw [refused]
    exact ⟨refused, same, fun later q => by rw [same]⟩
  · intro new
    obtain ⟨r', added, definitions⟩ := Registry.define_new new
    have engines : r'.engines = s.registry.engines := Registry.define_engines added
    refine ⟨⟨r', s.memory.forgetAnswers⟩, start r', ?_, definitions, defineAll_fresh rfl engines, fun later q => ?_⟩
    · unfold define
      rw [added]
      rfl
    · have renewed : Equivalent ⟨r', s.memory.forgetAnswers⟩ (start r') :=
        ⟨rfl, fun _ => rfl, fun _ => rfl, Registry.built_define reached.fair.built added, nofun⟩
      exact (renewed.performAll later).answer q

-- A list of things that are not known yet, and that no one has asked about in vain.
def listing : Session :=
  (start ⟨[⟨"List", .arrayOf (.referenceTo "Item")⟩], by decide, .builtIn⟩).perform (.request (.differs "List"))

def item : Definition := ⟨"Item", .ofProperties [.onlyIn (.of "key" .string) .internal]⟩

theorem listing_renewed :
    listing.answer (.differs "List") = false ∧ ∃ s, listing.define item = .ok s ∧ s.answer (.differs "List") = true := by
  refine ⟨by cbv, ?_⟩
  have reached : listing.Reached := .step (.start _) _
  obtain ⟨s, fresh, added, definitions, built, same⟩ := (define_renews reached item).2 (by decide)
  refine ⟨s, added, (same [] (.differs "List")).trans ?_⟩
  rw [definitions] at built
  have answered : (((start (.empty listing.registry.engines)).defineAll (listing.registry.definitions ++ [item])).2).answer (.differs "List") = true := by cbv
  rw [built] at answered
  exact answered

end Session
end TwinShape
