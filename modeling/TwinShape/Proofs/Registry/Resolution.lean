import TwinShape.Proofs.Agreement
import TwinShape.Registry.Memory

namespace TwinShape

def Registry.Resolves (r : Registry) (name : String) (n : Node) : Prop :=
  r.find? name = some n ∧ n.firstFlaw? r.engines.pattern .root = none

def Memory.Sound (r : Registry) (m : Memory) : Prop :=
  ∀ name ∈ m.built, ∀ n, r.find? name = some n → n.firstFlaw? r.engines.pattern .root = none

def Memory.Built (r : Registry) (m : Memory) : Prop := ∀ name ∈ m.built, ∃ n, r.Resolves name n

theorem Memory.Built.sound {m : Memory} (built : m.Built r) : m.Sound r := by
  intro name member n found
  obtain ⟨n', found', flawless⟩ := built name member
  cases found.symm.trans found'
  exact flawless

theorem Memory.sound_blank (r : Registry) : Memory.blank.Sound r := nofun

namespace Registry
variable {r : Registry}

theorem Resolves.unique {a b : Node} (first : r.Resolves name a) (second : r.Resolves name b) : a = b :=
  Option.some.inj (first.1.symm.trans second.1)

theorem find?_unregistered (unregistered : name ∉ r.names) : r.find? name = none :=
  Option.eq_none_iff_forall_not_mem.2 fun _ found => unregistered (mem_names_of_find? found)

theorem mem_of_find? (found : r.find? name = some n) : ∃ d ∈ r.definitions, d.node = n := by
  obtain ⟨d, listed, same⟩ := Option.map_eq_some_iff.1 found
  exact ⟨d, List.mem_of_find?_eq_some listed, same⟩

theorem find?_single {d : Definition} (single : r.definitions = [d]) (found : r.find? name = some n) : n = d.node := by
  obtain ⟨e, listed, rfl⟩ := mem_of_find? found
  rw [single] at listed
  rw [List.mem_singleton.1 listed]

theorem find?_define {r' : Registry} (added : r.define d = .ok r') (found : r.find? name = some n) :
    r'.find? name = some n := by
  unfold define at added
  split at added
  · cases added
  · cases added
    unfold find? at found ⊢
    rw [List.find?_append]
    obtain ⟨e, first, same⟩ := Option.map_eq_some_iff.1 found
    rw [first]
    exact congrArg some same

theorem define_engines {r' : Registry} (added : r.define d = .ok r') : r'.engines = r.engines := by
  unfold define at added
  split at added <;> cases added
  rfl

theorem Resolves.define {r' : Registry} (resolves : r.Resolves name n) (added : r.define d = .ok r') :
    r'.Resolves name n :=
  ⟨find?_define added resolves.1, define_engines added ▸ resolves.2⟩

def resolution (r : Registry) (referencing name : String) : Except Fault (r.Found name) :=
  match h : r.find? name with
  | none => .error (.unknownDefinition referencing name)
  | some n =>
    match n.firstFlaw? r.engines.pattern .root with
    | some finding => .error (.construction name finding)
    | none => .ok ⟨n, h⟩

theorem resolution_missing (missing : r.find? name = none) (referencing : String) :
    r.resolution referencing name = .error (.unknownDefinition referencing name) := by
  unfold resolution
  split
  · rfl
  · rename_i n found
    rw [missing] at found
    cases found

theorem resolution_flawed {n : Node} (found : r.find? name = some n)
    (flawed : n.firstFlaw? r.engines.pattern .root = some finding) (referencing : String) :
    r.resolution referencing name = .error (.construction name finding) := by
  unfold resolution
  split
  · rename_i missing
    rw [missing] at found
    cases found
  · rename_i n' found'
    rw [found'] at found
    cases found
    rw [flawed]

theorem resolution_of_resolves {n : Node} (resolves : r.Resolves name n) (referencing : String) :
    r.resolution referencing name = .ok ⟨n, resolves.1⟩ := by
  obtain ⟨found, flawless⟩ := resolves
  unfold resolution
  split
  · rename_i missing
    rw [missing] at found
    cases found
  · rename_i n' found'
    rw [found'] at found
    cases found
    split
    · rename_i finding flawed
      rw [flawless] at flawed
      cases flawed
    · rfl

-- What asking for a definition comes to. What is kept is not built again, and what is built is
-- kept if nothing is wrong with it.
inductive Asked (r : Registry) (referencing name : String) (m : Memory) : Except Fault (r.Found name) × Memory → Prop
  | unknown (missing : r.find? name = none) : Asked r referencing name m (.error (.unknownDefinition referencing name), m)
  | kept (found : r.find? name = some n) (built : name ∈ m.built) : Asked r referencing name m (.ok ⟨n, found⟩, m)
  | rejected (found : r.find? name = some n) (fresh : name ∉ m.built) (flawed : n.firstFlaw? r.engines.pattern .root = some finding) :
      Asked r referencing name m (.error (.construction name finding), { m with builds := m.builds ++ [name] })
  | accepted (found : r.find? name = some n) (fresh : name ∉ m.built) (flawless : n.firstFlaw? r.engines.pattern .root = none) :
      Asked r referencing name m (.ok ⟨n, found⟩, { m with built := m.built ++ [name], builds := m.builds ++ [name] })

theorem resolveFrom_asked (referencing name : String) (m : Memory) :
    r.Asked referencing name m (r.resolveFrom referencing name m) := by
  unfold resolveFrom
  split
  · exact .unknown ‹_›
  · split
    · exact .kept _ ‹_›
    · dsimp only
      split
      · exact .rejected ‹_› ‹_› ‹_›
      · exact .accepted _ ‹_› ‹_›

structure SameAnswers (m m' : Memory) : Prop where
  presence : m'.presence = m.presence
  variation : m'.variation = m.variation

theorem resolveFrom_cases (referencing name : String) (m : Memory) :
    SameAnswers m (r.resolveFrom referencing name m).2 ∧
      (m.Sound r → (r.resolveFrom referencing name m).1 = r.resolution referencing name ∧
        (r.resolveFrom referencing name m).2.Sound r) := by
  have asked := resolveFrom_asked (r := r) referencing name m
  revert asked
  rcases r.resolveFrom referencing name m with reply
  intro asked
  cases asked with
  | unknown missing => exact ⟨⟨rfl, rfl⟩, fun sound => ⟨(resolution_missing missing referencing).symm, sound⟩⟩
  | kept found built =>
    refine ⟨⟨rfl, rfl⟩, fun sound => ⟨?_, sound⟩⟩
    exact (resolution_of_resolves ⟨found, sound name built _ found⟩ referencing).symm
  | rejected found _ flawed => exact ⟨⟨rfl, rfl⟩, fun sound => ⟨(resolution_flawed found flawed referencing).symm, sound⟩⟩
  | accepted found _ flawless =>
    refine ⟨⟨rfl, rfl⟩, fun sound => ⟨(resolution_of_resolves ⟨found, flawless⟩ referencing).symm, ?_⟩⟩
    intro other member n' found'
    rcases List.mem_append.1 member with old | new
    · exact sound other old n' found'
    · cases List.mem_singleton.1 new
      cases found.symm.trans found'
      exact flawless

theorem resolve_first {m : Memory} (resolves : r.Resolves name n) (fresh : name ∉ m.built) :
    (r.resolve name m).2 = ⟨m.built ++ [name], m.builds ++ [name], m.presence, m.variation⟩ := by
  have asked := resolveFrom_asked (r := r) name name m
  unfold resolve
  revert asked
  rcases r.resolveFrom name name m with reply
  intro asked
  cases asked with
  | unknown missing => cases missing.symm.trans resolves.1
  | kept _ built => exact absurd built fresh
  | rejected found _ flawed =>
    cases found.symm.trans resolves.1
    cases flawed.symm.trans resolves.2
  | accepted => rfl

theorem resolveFrom_same (referencing name : String) (m : Memory) :
    SameAnswers m (r.resolveFrom referencing name m).2 := (resolveFrom_cases referencing name m).1

theorem resolveFrom_sound {m : Memory} (sound : m.Sound r) (referencing name : String) :
    (r.resolveFrom referencing name m).2.Sound r := ((resolveFrom_cases referencing name m).2 sound).2

theorem resolveFrom_answer {m : Memory} (sound : m.Sound r) (referencing name : String) :
    (r.resolveFrom referencing name m).1 = r.resolution referencing name :=
  ((resolveFrom_cases referencing name m).2 sound).1

theorem resolveFrom_built {m : Memory} (built : m.Built r) (referencing name : String) :
    (r.resolveFrom referencing name m).2.Built r := by
  have asked := resolveFrom_asked (r := r) referencing name m
  revert asked
  rcases r.resolveFrom referencing name m with reply
  intro asked
  cases asked with
  | unknown | kept | rejected => exact built
  | accepted found _ flawless =>
    intro other member
    rcases List.mem_append.1 member with old | new
    · exact built other old
    · cases List.mem_singleton.1 new
      exact ⟨_, found, flawless⟩

theorem resolution_ok {target : r.Found name} (accepted : r.resolution referencing name = .ok target) :
    r.Resolves name target.val := by
  refine ⟨target.property, ?_⟩
  cases flaw : target.val.firstFlaw? r.engines.pattern .root with
  | none => rfl
  | some finding =>
    rw [resolution_flawed target.property flaw] at accepted
    cases accepted

theorem recall_of_same {m m' : Memory} (same : SameAnswers m m') (key : String × Variant) :
    m'.recallPresence key = m.recallPresence key := by
  unfold Memory.recallPresence
  rw [same.presence]

end Registry
end TwinShape
