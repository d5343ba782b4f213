import TwinShape.Node.Builder
import TwinShape.Proofs.Node.Equality
import TwinShape.Proofs.Variation.Detection
import TwinShape.Schema.Evaluator

namespace TwinShape

def Registry.Settled (r : Registry) : Prop :=
  ∀ name n, r.find? name = some n → n.Each Node.Settled

def Unison.settled (r : Registry) (v : Variant) : Unison r v v where
  named _ := True
  good n := n.Each Node.Settled
  kept := Node.Settled
  includes _ := rfl
  property _ _ _ := rfl
  child settled inside := (Node.each_iff.1 settled).2 _ inside
  reference _ _ := trivial
  leaf := by
    intro n settled _
    have here : (n.rebuilt n.shape).Settled := settled n .self
    exact here
  inner := by
    intro n s settled _ _ _ _
    have here : (n.rebuilt s).Settled := settled n .self
    exact here

theorem Registry.Settled.projected {r : Registry} {n out : Node} (settled : r.Settled) (known : n.Each Node.Settled)
    (projected : (r.project definition n v m).1 = .ok (some out)) : out.Each Node.Settled := fun x part =>
  (project_out (.settled r v) settled known projected x part).2

structure Memory.Still (r : Registry) (m : Memory) : Prop where
  sound : m.Sound r
  mirrored : ∀ name, m.recallPresence (name, .internal) = m.recallPresence (name, .external)
  alike : ∀ name, m.recallVariation name ≠ some true

namespace Registry
variable {r : Registry}

def Plain (r : Registry) (n : Node) : Prop := r.Clean [] n ∧ n.Each Node.Settled

theorem Plain.child (plain : r.Plain n) (inside : c ∈ n.children) : r.Plain c :=
  ⟨plain.1.child inside, (Node.each_iff.1 plain.2).2 c inside⟩

def PlainName (r : Registry) (name : String) : Prop := ∀ n, r.Resolves name n → r.Plain n

theorem Plain.target (settled : r.Settled) (plain : r.Plain n) (reference : n.shape = .reference name) :
    r.PlainName name :=
  fun m resolves => ⟨plain.1.target reference resolves, settled name m resolves.1⟩

-- Plain nodes look the same in both variants, and what comes out is the same as itself.
def plainUnison (settled : r.Settled) : Unison r .internal .external where
  named := r.PlainName
  good := r.Plain
  kept n := n.same n = true
  includes plain := by rw [plain.1.restriction]; rfl
  property plain shape member := by rw [plain.1.property shape member]; rfl
  child plain inside := plain.child inside
  reference plain shape := plain.target settled shape
  leaf := by
    intro n plain leaf
    have here : (n.rebuilt n.shape).Settled := plain.2 n .self
    refine Node.same_self here fun c inside => ?_
    change c ∈ n.shape.children at inside
    rw [Shape.children_leaf leaf] at inside
    cases inside
  inner := by
    intro n s plain _ _ _ each
    have here : (n.rebuilt s).Settled := plain.2 n .self
    exact Node.same_self here each

theorem plain_run (settled : r.Settled) (plain : r.Plain n) (definition : String) :
    Alongside True (Memory.Alike r .internal .external) (Option.Rel fun a b => a = b ∧ a.same a = true)
      (r.project definition n .internal) (r.project definition n .external) := by
  refine ((plainUnison settled).project_run (Memory.Alike r .internal .external) (fun named => ?_) (fun _ alike => alike.presence _)
    (fun _ alike => alike_remember alike _ _) plain definition).weaken fun a b same => ?_
  · exact (resolveFrom_alike _ _).weaken fun a b both => ⟨both.1, named _ both.2⟩
  · cases same with
    | none => exact .none
    | @some x y both => exact .some ⟨both.1, (both.2 x .self).2⟩

theorem definitions_run (settled : r.Settled) (plain : r.PlainName name) :
    Alongside True (Memory.Alike r .internal .external) (Option.Rel fun a b => a = b ∧ a.same a = true)
      (r.projectDefinition name .internal) (r.projectDefinition name .external) := by
  refine .bind (resolveFrom_alike name name) ?_
  rintro ⟨n, found⟩ ⟨n', found'⟩ ⟨same, resolves⟩
  dsimp only at same
  subst same
  exact plain_run settled (plain n resolves) name

theorem definition_other {v w : Variant} (other : v ≠ w) (name : String) (m : Memory) (of : String) :
    (r.projectDefinition name v m).2.recallPresence (of, w) = m.recallPresence (of, w) := by
  have kept : Inquiry.Keeps (fun m' => m'.recallPresence (of, w) = m.recallPresence (of, w))
      (r.projectDefinition name v) :=
    .bind (fun m' held => (recall_of_same (resolveFrom_same name name m') _).trans held)
      fun n m' held => (project_other other name n.val m' of).trans held
  exact kept m rfl

theorem definition_variation (v : Variant) (name : String) (m : Memory) :
    (r.projectDefinition name v m).2.variation = m.variation := by
  have kept : Inquiry.Keeps (fun m' => m'.variation = m.variation) (r.projectDefinition name v) :=
    .bind (fun m' held => (resolveFrom_same name name m').variation.trans held)
      fun n m' held => (project_variation name n.val m').trans held
  exact kept m rfl

theorem definition_sound (v : Variant) (name : String) {m : Memory} (sound : m.Sound r) :
    (r.projectDefinition name v m).2.Sound r := by
  have kept : Inquiry.Keeps (Memory.Sound r) (r.projectDefinition name v) :=
    .bind (fun m' held => resolveFrom_sound held name name) fun n m' held => project_sound held name n.val
  exact kept m sound

theorem still_projections (settled : r.Settled) (plain : r.PlainName name) {m : Memory} (still : m.Still r) :
    (projectionsDiffer r name m).1 = false ∧ (projectionsDiffer r name m).2.Still r := by
  have between : Memory.Alike r .internal .external m (r.projectDefinition name .internal m).2 := by
    refine ⟨fun other => ?_, still.sound, definition_sound _ _ still.sound⟩
    rw [definition_other (by decide) name m other]
    exact still.mirrored other
  have agree := definitions_run settled plain m _ between
  have alike := agree.after trivial
  rw [projectionsDiffer_eq]
  refine ⟨?_, definition_sound _ _ (definition_sound _ _ still.sound), fun other => ?_, fun other => ?_⟩
  · dsimp only
    revert agree
    rcases r.projectDefinition name .internal m with ⟨e | i, m₁⟩
    · exact fun _ => rfl
    · dsimp only
      rcases r.projectDefinition name .external m₁ with ⟨f | o, m₂⟩ <;> intro agree
      · rfl
      · obtain ⟨⟨rfl, same⟩ | _, _⟩ := agree
        · exact congrArg not same
        · rfl
  · rw [definition_other (by decide)]
    exact alike.presence other
  · unfold Memory.recallVariation
    rw [definition_variation, definition_variation]
    exact still.alike other

theorem still_resolve {m : Memory} (still : m.Still r) (referencing name : String) :
    (r.resolveFrom referencing name m).2.Still r := by
  have same := resolveFrom_same (r := r) referencing name m
  refine ⟨resolveFrom_sound still.sound _ _, fun other => ?_, fun other => ?_⟩
  · rw [recall_of_same same, recall_of_same same]
    exact still.mirrored other
  · unfold Memory.recallVariation
    rw [same.variation]
    exact still.alike other

theorem still_alike {m : Memory} (still : m.Still r) (name : String) (leaned : Bool) :
    (m.rememberContrast name (.alike leaned)).Still r := by
  cases leaned with
  | true => exact still
  | false =>
    refine ⟨still.sound, still.mirrored, fun other => ?_⟩
    rw [Memory.rememberContrast, Memory.recallVariation_cons]
    split
    · intro same
      cases same
    · exact still.alike other

def stillness (settled : r.Settled) : Survey r where
  covers := r.Plain
  memory m := m.Still r
  node _ _ contrast := contrast ≠ .differs
  definition _ _ contrast := contrast ≠ .differs
  child plain inside := plain.child inside
  target plain reference resolves := plain.target settled reference _ resolves
  sound still := still.sound
  lean _ := nofun
  restricted plain restricted := absurd (.inl restricted) (plain.1 _ .here)
  apart := by
    intro n p checking plain _ inside why
    rcases why with restricted | differs
    · exact absurd (n.restricted_iff.2 (.inr ⟨p, inside, restricted⟩)) (plain.1 n .here)
    · exact absurd rfl differs
  alike _ _ _ _ := nofun
  reference _ _ _ said := said
  recalled := by
    intro m name known checking still recalled
    cases known
    · exact nofun
    · exact absurd recalled (still.alike name)
  busy _ := nofun
  missing _ := nofun
  resolve still := still_resolve still _ _
  differs _ _ _ differs := absurd rfl differs
  settled := by
    intro m name n checking leaned still resolves plain _
    have named : r.PlainName name := fun n' resolves' => resolves.unique resolves' ▸ plain
    have ⟨none_, after⟩ := still_projections settled named still
    unfold settleContrast
    dsimp only
    rw [none_]
    exact ⟨nofun, still_alike after name leaned⟩

theorem differs_of_plain (settled : r.Settled) (plain : r.PlainName name) {m : Memory} (still : m.Still r) :
    (r.differs name m).1 = false := by
  have said := ((stillness settled).definition_answer name plain [] m still).2
  unfold differs
  revert said
  rcases definitionContrast r [] name m with ⟨_ | leaned, m'⟩ <;> intro said
  · exact absurd rfl said
  · rfl

end Registry

-- Whether a definition differs is decided by what can be come to from it. What can is never
-- overlooked, whatever was asked before; and nothing else counts as long as nothing is remembered.
theorem Session.differs_exact {s : Session} (reached : s.Reached) (name : String) :
    ((∃ x, s.registry.Reaches name x ∧ x.Restricted) → (s.registry.differs name s.memory).1 = true) ∧
    (s.memory.presence = [] → s.memory.variation = [] → s.registry.Settled →
      (¬∃ x, s.registry.Reaches name x ∧ x.Restricted) → (s.registry.differs name s.memory).1 = false) := by
  constructor
  · rintro ⟨x, reach, restricted⟩
    exact Registry.differs_of_reaches reached.honest reach restricted
  · intro presence variation settled none_
    refine Registry.differs_of_plain settled (fun n resolves => ⟨fun x reach restricted => ?_, ?_⟩) ?_
    · exact none_ ⟨x, ⟨n, resolves, reach⟩, restricted⟩
    · exact settled name n resolves.1
    · refine ⟨reached.honest.built.sound, fun other => ?_, fun other => ?_⟩
      · unfold Memory.recallPresence
        rw [presence]
        rfl
      · unfold Memory.recallVariation
        rw [variation]
        exact nofun

def Registry.winding : Registry :=
  ⟨[⟨"A", .arrayOf (.referenceTo "B")⟩,
    ⟨"B", .ofProperties [.of "a" (.referenceTo "A"), .onlyIn (.of "b" .string) .internal]⟩], by decide, .builtIn⟩

def Registry.circling : Registry := ⟨[⟨"A", .arrayOf (.referenceTo "A")⟩], by decide, .builtIn⟩

theorem Registry.circling_plain : circling.Settled ∧ ¬∃ x, circling.Reaches "A" x ∧ x.Restricted := by
  have only : ∀ name n, circling.find? name = some n → n = .arrayOf (.referenceTo "A") :=
    fun _ _ found => find?_single rfl found
  constructor
  · intro name n found
    rw [only name n found]
    have leaf : Node.Each Node.Settled (.referenceTo "A") := Node.each_iff.2 ⟨⟨nofun, nofun⟩, nofun⟩
    refine Node.each_iff.2 ⟨⟨nofun, nofun⟩, fun c inside => ?_⟩
    rw [List.mem_singleton.1 inside]
    exact leaf
  · rintro ⟨x, ⟨n, resolves, reach⟩, restricted⟩
    have known : x = .arrayOf (.referenceTo "A") ∨ x = .referenceTo "A" := by
      have from_ : n = .arrayOf (.referenceTo "A") ∨ n = .referenceTo "A" := .inl (only _ _ resolves.1)
      clear resolves restricted
      induction reach with
      | here => exact from_
      | child inside _ ih =>
        rcases from_ with rfl | rfl
        · exact ih (.inr (List.mem_singleton.1 inside))
        · cases inside
      | follow _ _ resolves _ ih => exact ih (.inl (only _ _ resolves.1))
    rcases known with rfl | rfl
    · rcases restricted with here | ⟨o, shape, _⟩
      · cases here
      · cases shape
    · rcases restricted with here | ⟨o, shape, _⟩
      · cases here
      · cases shape

theorem Session.differs_exact_on_cycles :
    (Registry.winding.differs "A" (Registry.winding.differs "A" .blank).2).1 = true ∧
      (Registry.circling.differs "A" .blank).1 = false := by
  constructor
  · refine (Session.differs_exact (.step (.start Registry.winding) (.request (.differs "A"))) "A").1 ?_
    refine ⟨_, ⟨_, ⟨rfl, rfl⟩, .child List.mem_cons_self (.follow rfl List.not_mem_nil ⟨rfl, rfl⟩ .here)⟩, ?_⟩
    exact .inr ⟨_, rfl, _, List.mem_cons_of_mem _ List.mem_cons_self, rfl⟩
  · have ⟨settled, none_⟩ := Registry.circling_plain
    exact (Session.differs_exact (.start Registry.circling) "A").2 rfl rfl settled none_

end TwinShape
