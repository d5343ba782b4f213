import Mathlib
import TwinShape.Node.Builder
import TwinShape.Proofs.Projection.Memory
import TwinShape.Proofs.Registry.Requests
import TwinShape.Schema.Evaluator

namespace TwinShape
namespace Registry

def presenceFrom (r : Registry) (referencing name : String) (v : Variant) : Question Bool :=
  (isPresent r v (.start referencing []) name).alone

-- What is known once the presence of some definitions has been decided, one after the other.
def decideAll (r : Registry) (v : Variant) (names : List String) (m : Memory) : Memory :=
  names.foldl (fun m name => (r.presenceFrom name name v m).2) m

-- No decision depends on what was decided before it.
def Steady (r : Registry) (v : Variant) : Prop :=
  ∀ decided referencing name,
    (r.presenceFrom referencing name v (r.decideAll v decided .blank)).1 =
      (r.presenceFrom referencing name v .blank).1

variable {r : Registry} {v : Variant}

theorem decideAll_append (names : List String) (name : String) (m : Memory) :
    r.decideAll v (names ++ [name]) m = (r.presenceFrom name name v (r.decideAll v names m)).2 := by
  unfold decideAll
  rw [List.foldl_append]
  rfl

theorem resolveFrom_memory (first second name : String) (m : Memory) :
    (r.resolveFrom first name m).2 = (r.resolveFrom second name m).2 ∧
      ∀ target, (r.resolveFrom first name m).1 = .ok target → (r.resolveFrom second name m).1 = .ok target := by
  unfold resolveFrom
  split
  · refine ⟨rfl, ?_⟩
    rintro _ ⟨⟩
  · split
    · exact ⟨rfl, fun _ same => same⟩
    · dsimp only
      split
      · refine ⟨rfl, ?_⟩
        rintro _ ⟨⟩
      · exact ⟨rfl, fun _ same => same⟩

theorem settle_memory (v : Variant) (name : String) (p : Probe (Option Node)) (m : Memory) (leaned : Bool) :
    (settlePresence v name p ⟨m, leaned⟩).1 = (settlePresence v name p ⟨m, false⟩).1 ∧
      (settlePresence v name p ⟨m, leaned⟩).2.memory = (settlePresence v name p ⟨m, false⟩).2.memory := by
  unfold settlePresence Probe.watch
  dsimp only [Bind.bind, Inquiry.bind]
  rcases p ⟨m, false⟩ with ⟨e | kept, t⟩
  · exact ⟨rfl, rfl⟩
  · dsimp only
    split <;> exact ⟨rfl, rfl⟩

theorem isPresent_outermost {scope : Scope} (outermost : scope.projecting = []) (name : String) (t : Trail) :
    isPresent r v scope name t = match t.memory.recallPresence (name, v) with
      | some known => (.ok known, t)
      | none =>
        match r.resolveFrom scope.definition name t.memory with
        | (.error e, m) => (.error e, ⟨m, t.leaned⟩)
        | (.ok target, m) => settlePresence v name (projectNode r v (.start name [name]) target.val) ⟨m, t.leaned⟩ := by
  rw [isPresent_eq, outermost]
  cases t.memory.recallPresence (name, v) with
  | some known => rfl
  | none =>
    dsimp only
    rw [if_neg List.not_mem_nil]
    dsimp only [Bind.bind, Inquiry.bind, Probe.ask, Inquiry.within]
    rcases r.resolveFrom scope.definition name t.memory with ⟨e | target, m⟩ <;> rfl

theorem presenceFrom_eq (referencing name : String) (m : Memory) :
    r.presenceFrom referencing name v m = match m.recallPresence (name, v) with
      | some known => (.ok known, m)
      | none =>
        match r.resolveFrom referencing name m with
        | (.error e, m) => (.error e, m)
        | (.ok target, m) =>
          let (answer, t) := settlePresence v name (projectNode r v (.start name [name]) target.val) ⟨m, false⟩
          (answer, t.memory) := by
  unfold presenceFrom Probe.alone
  rw [isPresent_outermost rfl]
  dsimp only [Scope.start]
  cases m.recallPresence (name, v) with
  | some known => rfl
  | none =>
    dsimp only
    rcases r.resolveFrom referencing name m with ⟨e | target, m'⟩ <;> rfl

-- An outermost check is a decision, wherever it is made.
theorem isPresent_decides {scope : Scope} (outermost : scope.projecting = []) (name : String) (t : Trail) :
    (isPresent r v scope name t).1 = (r.presenceFrom scope.definition name v t.memory).1 ∧
      (isPresent r v scope name t).2.memory = (r.presenceFrom scope.definition name v t.memory).2 := by
  rw [isPresent_outermost outermost, presenceFrom_eq]
  cases t.memory.recallPresence (name, v) with
  | some known => exact ⟨rfl, rfl⟩
  | none =>
    dsimp only
    rcases r.resolveFrom scope.definition name t.memory with ⟨e | target, m⟩
    · exact ⟨rfl, rfl⟩
    · exact settle_memory v name _ m t.leaned

theorem presenceFrom_memory (first second name : String) (m : Memory) :
    (r.presenceFrom first name v m).2 = (r.presenceFrom second name v m).2 := by
  rw [presenceFrom_eq, presenceFrom_eq]
  cases m.recallPresence (name, v) with
  | some known => rfl
  | none =>
    have same := resolveFrom_memory (r := r) first second name m
    have same' := resolveFrom_memory (r := r) second first name m
    dsimp only
    revert same same'
    rcases r.resolveFrom first name m with ⟨e | target, m'⟩ <;>
      rcases r.resolveFrom second name m with ⟨f | target', m''⟩ <;> rintro ⟨rfl, same⟩ ⟨_, same'⟩
    · rfl
    · cases same' _ rfl
    · cases same _ rfl
    · cases same _ rfl
      rfl

-- What is known after a number of decisions, as far as the variant goes.
def Decided (r : Registry) (v : Variant) (m : Memory) : Prop :=
  ∃ decided, Memory.Alike r v v m (r.decideAll v decided .blank)

theorem presence_alike {m n : Memory} (alike : Memory.Alike r v v m n) (referencing name : String) :
    (r.presenceFrom referencing name v m).1 = (r.presenceFrom referencing name v n).1 ∧
      Memory.Alike r v v (r.presenceFrom referencing name v m).2 (r.presenceFrom referencing name v n).2 := by
  let plain := Unison.plain r v
  let sim := plain.simulation (Probe.Seen (Memory.Alike r v v)) fun _ => Probe.ask_run
    ((resolveFrom_alike _ _).weaken fun _ _ both => ⟨both.1, trivial⟩)
  let recalls : sim.Recalls :=
    ⟨Memory.Alike r v v, Iff.rfl, fun _ alike => alike.presence _, fun _ alike => alike_remember alike _ _⟩
  have agree := recalls.presence_run
    (.start referencing []) name trivial ⟨m, false⟩ ⟨n, false⟩ ⟨alike, rfl⟩
  exact ⟨agree.answer trivial, (agree.after trivial).1⟩

theorem decided_blank : r.Decided v .blank :=
  ⟨[], ⟨fun _ => rfl, Memory.sound_blank r, Memory.sound_blank r⟩⟩

theorem decided_presence {m : Memory} (before : r.Decided v m) (referencing name : String) :
    r.Decided v (r.presenceFrom referencing name v m).2 := by
  obtain ⟨decided, alike⟩ := before
  refine ⟨decided ++ [name], ?_⟩
  rw [decideAll_append, presenceFrom_memory name referencing]
  exact (presence_alike alike referencing name).2

theorem decided_same {m m' : Memory} (before : r.Decided v m)
    (same : ∀ name, m'.recallPresence (name, v) = m.recallPresence (name, v)) (sound : m'.Sound r) :
    r.Decided v m' := by
  obtain ⟨decided, alike⟩ := before
  exact ⟨decided, ⟨fun name => (same name).trans (alike.presence name), sound, alike.second⟩⟩

theorem decided_sound {m : Memory} (before : r.Decided v m) : m.Sound r := by
  obtain ⟨decided, alike⟩ := before
  exact alike.first

theorem presence_steady (steady : r.Steady v) {m : Memory} (before : r.Decided v m) (referencing name : String) :
    (r.presenceFrom referencing name v m).1 = (r.presenceFrom referencing name v .blank).1 := by
  obtain ⟨decided, alike⟩ := before
  exact (presence_alike alike referencing name).1.trans (steady decided referencing name)

theorem decided_resolve (referencing name : String) : Inquiry.Keeps (r.Decided v) (r.resolveFrom referencing name) :=
  fun _ before => decided_same before (fun _ => recall_of_same (resolveFrom_same _ _ _) _)
    (resolveFrom_sound (decided_sound before) _ _)

-- All that a projection learns about the variant, it learns by decisions; and if those are
-- steady, its answer is always the same.
theorem project_steady (steady : r.Steady v) (definition : String) (n : Node) :
    Alongside True (fun m m' => r.Decided v m ∧ r.Decided v m') Eq
      (r.project definition n v) (r.project definition n v) := by
  let plain := Unison.plain r v
  let view : Trail → Trail → Prop := fun t u => r.Decided v t.memory ∧ r.Decided v u.memory
  have resolve : ∀ {name definition}, plain.named name →
      Alongside True view (fun a b => a.val = b.val ∧ plain.good a.val)
        (Probe.ask (r.resolveFrom definition name)) (Probe.ask (r.resolveFrom definition name)) := by
    intro name definition _ t u seen
    refine Agrees.of_answer ?_ ⟨decided_resolve definition name _ seen.1, decided_resolve definition name _ seen.2⟩ fun _ => ⟨rfl, trivial⟩
    exact (resolveFrom_answer (decided_sound seen.1) definition name).trans
      (resolveFrom_answer (decided_sound seen.2) definition name).symm
  have decided : ∀ scope name, scope.projecting = [] → plain.named name →
      (plain.simulation view resolve).Runs Eq (isPresent r v scope name) (isPresent r v scope name) := by
    intro scope name outermost _ t u seen
    have first := isPresent_decides (r := r) (v := v) outermost name t
    have second := isPresent_decides (r := r) (v := v) outermost name u
    refine Agrees.of_answer ?_ ⟨?_, ?_⟩ fun _ => rfl
    · rw [first.1, second.1, presence_steady steady seen.1, presence_steady steady seen.2]
    · rw [first.2]
      exact decided_presence seen.1 _ _
    · rw [second.2]
      exact decided_presence seen.2 _ _
  have related : (plain.simulation view resolve).source n n := ⟨rfl, trivial⟩
  have nodes := Simulation.node_run decided related (.start definition []) rfl
  rw [project_eq]
  refine (Probe.alone_run nodes (fun _ _ seen => seen) fun _ _ seen => seen).weaken fun a b same => ?_
  cases same with
  | none => rfl
  | some both => exact congrArg some both.1

theorem decided_kept (steady : r.Steady v) : Kept r (r.Decided v) := by
  refine .of_projections decided_resolve (fun definition n w m before => ?_) ?_
  · by_cases same : w = v
    · subst same
      exact ((project_steady steady definition n _ _ ⟨before, before⟩).after trivial).1
    · exact decided_same before (project_other same definition n m)
        (project_sound (decided_sound before) definition n)
  · rintro m name apart ⟨decided, alike⟩
    exact ⟨decided, ⟨alike.presence, alike.first, alike.second⟩⟩

theorem projectNode_reference (scope : Scope) (name : String) (t : Trail) :
    projectNode r v scope (.referenceTo name) t =
      ((isPresent r v scope name t).1.map fun present => if present then some (.referenceTo name) else none,
        (isPresent r v scope name t).2) := by
  rw [projectNode_eq, if_pos (show (Node.referenceTo name).restriction.includes v = true from rfl)]
  dsimp only [Node.referenceTo, Node.ofShape]
  rw [projectShape]
  dsimp only [Bind.bind, Inquiry.bind]
  rcases isPresent r v scope name t with ⟨e | _ | _, u⟩ <;> rfl

theorem project_reference (referencing name : String) (m : Memory) :
    r.project referencing (.referenceTo name) v m =
      ((r.presenceFrom referencing name v m).1.map fun present => if present then some (.referenceTo name) else none,
        (r.presenceFrom referencing name v m).2) := by
  rw [project_eq]
  unfold presenceFrom Probe.alone
  rw [projectNode_reference]

theorem project_reference_memory (referencing name : String) (m : Memory) :
    (r.project referencing (.referenceTo name) v m).2 = (r.presenceFrom referencing name v m).2 := by
  rw [project_reference]

theorem presence_of_project {referencing name : String} {m m' : Memory}
    (same : (r.project referencing (.referenceTo name) v m).1 = (r.project referencing (.referenceTo name) v m').1) :
    (r.presenceFrom referencing name v m).1 = (r.presenceFrom referencing name v m').1 := by
  rw [project_reference, project_reference] at same
  dsimp only at same
  revert same
  rcases (r.presenceFrom referencing name v m).1 with e | _ | _ <;>
    rcases (r.presenceFrom referencing name v m').1 with f | _ | _ <;> intro same <;> cases same <;> rfl

def decidingRequests (v : Variant) (names : List String) : List Request :=
  names.map fun name => .project name (.referenceTo name) v

theorem after_decidingRequests (names : List String) (m : Memory) :
    r.afterAll (decidingRequests v names) m = r.decideAll v names m := by
  induction names generalizing m with
  | nil => rfl
  | cons name rest ih =>
    change r.afterAll (decidingRequests v rest) (r.project name (.referenceTo name) v m).2 = _
    rw [ih, project_reference_memory]
    rfl

-- Projections come out as on a fresh registry after every history of requests, failed ones
-- among them, exactly where decisions about presence are steady.
theorem projections_repeat_iff (r : Registry) (v : Variant) :
    (∀ history,
      (∀ name, (r.projectDefinition name v (r.afterAll history .blank)).1 = (r.projectDefinition name v .blank).1) ∧
      ∀ definition n, (r.project definition n v (r.afterAll history .blank)).1 = (r.project definition n v .blank).1) ↔
    r.Steady v := by
  constructor
  · intro repeated decided referencing name
    have same := (repeated (decidingRequests v decided)).2 referencing (.referenceTo name)
    rw [after_decidingRequests] at same
    exact presence_of_project same
  · intro steady history
    have before := (decided_kept steady).afterAll_keeps history (decided_blank (r := r) (v := v))
    have nodes : ∀ definition n m m', r.Decided v m → r.Decided v m' →
        (r.project definition n v m).1 = (r.project definition n v m').1 :=
      fun definition n m m' first second => (project_steady steady definition n m m' ⟨first, second⟩).answer trivial
    refine ⟨fun name => ?_, fun definition n => nodes definition n _ _ before decided_blank⟩
    have resolved := resolveFrom_answer (decided_sound before) name name
    have resolved' := resolveFrom_answer (Memory.sound_blank r) name name
    have after := decided_resolve name name _ before
    have after' := decided_resolve name name _ (decided_blank (r := r) (v := v))
    change (Inquiry.bind (r.resolveFrom name name) _ _).1 = (Inquiry.bind (r.resolveFrom name name) _ _).1
    unfold Inquiry.bind
    revert resolved resolved' after after'
    rcases r.resolveFrom name name (r.afterAll history .blank) with ⟨e | target, m⟩ <;>
      rcases r.resolveFrom name name .blank with ⟨f | target', m'⟩ <;> intro resolved resolved' after after'
    · exact congrArg Except.error (Except.error.inj (resolved.trans resolved'.symm))
    · cases resolved.trans resolved'.symm
    · cases resolved.trans resolved'.symm
    · cases resolved.trans resolved'.symm
      exact nodes name _ _ _ after after'

end Registry

-- `A` has no external shape, so neither has `B`; but `B` counts as present while `A` is
-- being decided, and that answer stays.
def Registry.leaning : Registry :=
  ⟨[⟨"A", .link (.referenceTo "B") (Node.string.onlyIn .internal)⟩, ⟨"B", .arrayOf (.referenceTo "A")⟩,
    ⟨"X", .ofProperties [.of "b" (.referenceTo "B"), .of "a" (.referenceTo "A")]⟩], by decide, .builtIn⟩

def propertiesIn : Except Fault (Option Node) → List String
  | .ok (some ⟨.object o, _, _, _, _⟩) => o.properties.map (·.name)
  | _ => []

theorem Registry.leaning_differs :
    (leaning.projectDefinition "X" .external
      (leaning.afterAll [.projectDefinition "X" .external] .blank)).1 ≠
    (leaning.projectDefinition "X" .external .blank).1 := by
  intro same
  have first : propertiesIn (leaning.projectDefinition "X" .external .blank).1 = [] := by cbv
  have second : propertiesIn (leaning.projectDefinition "X" .external
      (leaning.projectDefinition "X" .external .blank).2).1 = ["b"] := by cbv
  have answers := congrArg propertiesIn same
  rw [first] at answers
  exact absurd (second.symm.trans answers) (List.cons_ne_nil _ _)

end TwinShape
