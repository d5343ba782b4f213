import TwinShape.Proofs.Projection.Course
import TwinShape.Proofs.Registry.Requests

namespace TwinShape

-- All that an inquiry keeps true, and what it says as long as that is true.
def Course.keeping (J : σ → Prop) (s : σ) : Course σ ε where
  before t u := J t → J u
  refl := id
  trans first second held := second (first held)
  first := s
  last := s
  fault _ := True

namespace Course
variable {J : σ → Prop} {s₀ : σ} {P : α → Prop} {x : Inquiry σ ε α}

theorem keeping_intro (held : J s₀) (told : ∀ s, J s → J (x s).2 ∧ ∀ a, (x s).1 = .ok a → P a) :
    (keeping J s₀).Says P x := by
  intro s
  refine ⟨fun here => (told s here).1, ?_⟩
  have answer := fun here => (told s here).2
  revert answer
  rcases x s with ⟨e | a, t⟩ <;> intro answer
  · trivial
  · exact fun from_ _ => answer (from_ held) a rfl

theorem keeping_elim (told : (keeping J s₀).Says P x) (held : J s₀) (here : J s) :
    J (x s).2 ∧ ∀ a, (x s).1 = .ok a → P a := by
  have ⟨kept, said⟩ := told s
  refine ⟨kept here, fun a answer => ?_⟩
  rw [answer] at said
  exact said (fun _ => here) fun _ => held

theorem keeping_bind {Q : β → Prop} {f : α → Inquiry σ ε β} (held : J s₀) (first : (keeping J s₀).Says P x)
    (next : ∀ a, P a → (keeping J s₀).Says Q (f a)) : (keeping J s₀).Says Q (x >>= f) := by
  refine keeping_intro held fun s here => ?_
  have ⟨kept, found⟩ := keeping_elim first held here
  change J (Inquiry.bind x f s).2 ∧ ∀ b, (Inquiry.bind x f s).1 = .ok b → Q b
  unfold Inquiry.bind
  revert kept found
  rcases x s with ⟨e | a, t⟩ <;> intro kept found
  · exact ⟨kept, nofun⟩
  · exact keeping_elim (next a (found a rfl)) held kept

end Course

-- What presence checks say of definitions, whatever they have leaned on. A check is near all
-- the nodes that it comes to without another one, while it decides about some definitions.
structure Verdict (r : Registry) where
  finds : Variant → String → Bool → Prop
  near : Variant → List String → Node → Prop
  start : near v [] n
  inward : near v busy n → n.restriction.includes v → c ∈ n.children → near v busy c
  merging : near v busy n → n.restriction.includes v → n.shape = .object o → m ∈ o.parents → m.shape = .reference name →
    r.find? name = some target → near v busy target
  push : near v busy n → n.restriction.includes v → n.shape = .reference name → r.Resolves name target →
    near v (name :: busy) target
  leaning : near v busy n → n.restriction.includes v → n.shape = .reference name → name ∈ busy → finds v name true
  settled : r.Resolves name target → Projects r v (finds v) target out → finds v name out.isSome

-- What is remembered is what the verdict finds.
structure Verdict.Holds (d : Verdict r) (m : Memory) : Prop where
  built : m.Built r
  recalled : m.recallPresence (name, v) = some present → d.finds v name present

namespace Verdict
variable {r : Registry} (d : Verdict r)

theorem holds_blank : d.Holds .blank := ⟨nofun, nofun⟩

variable {d} {v : Variant}

theorem Holds.remember {m : Memory} (holds : d.Holds m) {name : String} {present : Bool}
    (said : d.finds v name present) :
    d.Holds (m.rememberPresence (name, v) present) := by
  refine ⟨holds.built, fun {other w known} recalled => ?_⟩
  rw [Memory.recall_remember] at recalled
  split at recalled
  · rename_i same
    cases same
    cases recalled
    exact said
  · exact holds.recalled recalled

theorem Holds.resolve {m : Memory} (holds : d.Holds m) (referencing name : String) :
    d.Holds (r.resolveFrom referencing name m).2 := by
  refine ⟨Registry.resolveFrom_built holds.built _ _, fun recalled => holds.recalled ?_⟩
  rwa [Registry.recall_of_same (Registry.resolveFrom_same _ _ _)] at recalled

variable (d)

-- Probes that keep the verdict.
abbrev keeping : Course Trail Fault := Course.keeping (fun t => d.Holds t.memory) ⟨.blank, false⟩

variable {d}

theorem resolve_finds (definition name : String) :
    d.keeping.Says (fun target => r.Resolves name target.val) (Probe.ask (r.resolveFrom definition name)) := by
  refine Course.keeping_intro d.holds_blank fun t holds => ⟨holds.resolve definition name, fun target found => ?_⟩
  exact Registry.resolution_ok ((Registry.resolveFrom_answer holds.built.sound definition name).symm.trans found)

theorem settle_finds {p : Probe (Option Node)} (run : d.keeping.Says (Projects r v (d.finds v) target) p)
    (resolves : r.Resolves name target) : d.keeping.Says (d.finds v name) (settlePresence v name p) := by
  refine Course.keeping_intro d.holds_blank fun t holds => ?_
  have ⟨kept, told⟩ := Course.keeping_elim run d.holds_blank (s := { t with leaned := false }) holds
  rw [settlePresence_eq]
  revert kept told
  rcases p { t with leaned := false } with ⟨e | out, after⟩ <;> intro kept told
  · exact ⟨kept, nofun⟩
  · have said : d.finds v name out.isSome := d.settled resolves (told out rfl)
    refine ⟨?_, fun _ same => Except.ok.inj same ▸ said⟩
    dsimp only
    split
    · exact kept.remember said
    · exact kept

-- Every check comes to the verdict, however deep it is nested.
theorem presence_finds {n : Node} (scope : Scope) (name : String) (near : d.near v scope.projecting n)
    (inside : n.restriction.includes v) (shape : n.shape = .reference name) :
    d.keeping.Says (d.finds v name) (isPresent r v scope name) := by
  refine Course.keeping_intro d.holds_blank fun t holds => ?_
  rw [isPresent_eq]
  cases recalled : t.memory.recallPresence (name, v) with
  | some known => exact ⟨holds, fun _ same => Except.ok.inj same ▸ holds.recalled recalled⟩
  | none =>
    dsimp only
    by_cases busy : name ∈ scope.projecting
    · rw [if_pos busy]
      exact ⟨holds, fun _ same => Except.ok.inj same ▸ d.leaning near inside shape busy⟩
    · rw [if_neg busy]
      have run : d.keeping.Says (d.finds v name) (Probe.ask (r.resolveFrom scope.definition name) >>= fun target =>
          settlePresence v name (projectNode r v (.start name (name :: scope.projecting)) target.val)) := by
        refine Course.keeping_bind d.holds_blank (resolve_finds scope.definition name) fun target resolves => ?_
        refine settle_finds (near_projected (fun _ _ => trivial) d.inward d.merging resolve_finds ?_ target.val
          (d.push near inside shape resolves) _ rfl) resolves
        intro n inner other near' inside' shape' level
        exact presence_finds inner other (level ▸ near') inside' shape'
      exact Course.keeping_elim run d.holds_blank holds
termination_by r.unvisited scope.projecting
decreasing_by
  rw [level]
  exact r.unvisited_cons_lt (r.mem_names_of_find? target.property) busy

theorem Holds.project {m : Memory} (holds : d.Holds m) (definition : String) (n : Node) (v : Variant) :
    d.Holds (r.project definition n v m).2 ∧
      ∀ out, (r.project definition n v m).1 = .ok out → Projects r v (d.finds v) n out := by
  rw [Registry.project_eq]
  refine Course.keeping_elim (near_projected (fun _ _ => trivial) d.inward d.merging resolve_finds ?_ n d.start
    (.start definition []) rfl) d.holds_blank (s := ⟨m, false⟩) holds
  intro n scope name near inside shape level
  exact presence_finds scope name (level ▸ near) inside shape

variable (d)

theorem kept : Kept r d.Holds :=
  .of_projections (fun referencing name _ holds => holds.resolve referencing name)
    (fun definition n v _ holds => (holds.project definition n v).1) fun _ _ _ holds => ⟨holds.built, holds.recalled⟩

end Verdict

namespace Registry
variable {r : Registry} {v : Variant}

theorem projectDefinition_ok {m : Memory} (sound : m.Sound r)
    (answered : (r.projectDefinition name v m).1 = .ok out) :
    ∃ n, r.Resolves name n ∧ (r.project name n v (r.resolve name m).2).1 = .ok out := by
  have found := resolveFrom_answer sound name name
  change (Inquiry.bind (r.resolve name) _ m).1 = _ at answered
  change (r.resolve name m).1 = _ at found
  unfold Inquiry.bind at answered
  revert found
  revert answered
  rcases r.resolve name m with ⟨e | target, m'⟩ <;> intro answered found
  · cases answered
  · exact ⟨target.val, resolution_ok found.symm, answered⟩

theorem projectDefinition_of_resolves {m : Memory} (sound : m.Sound r) (resolves : r.Resolves name n) :
    r.projectDefinition name v m = r.project name n v (r.resolve name m).2 := by
  have found : r.resolve name m = (.ok ⟨n, resolves.1⟩, (r.resolve name m).2) :=
    Prod.ext ((resolveFrom_answer sound name name).trans (resolution_of_resolves resolves name)) rfl
  change (r.resolve name >>= fun target => r.project name target.val v) m = _
  rw [Inquiry.bind_ok found]

end Registry

namespace Verdict
variable {r : Registry} {d : Verdict r} {v : Variant}

theorem Holds.projectDefinition {m : Memory} (holds : d.Holds m)
    (answered : (r.projectDefinition name v m).1 = .ok out) : ∃ n, r.Resolves name n ∧ Projects r v (d.finds v) n out := by
  obtain ⟨n, resolves, projected⟩ := Registry.projectDefinition_ok holds.built.sound answered
  exact ⟨n, resolves, ((holds.resolve name name).project name n v).2 out projected⟩

end Verdict

-- A verdict that there is for any registry holds whatever was asked and added before: adding
-- a definition leaves nothing of it to be kept.
theorem Session.Reached.holds {s : Session} (reached : s.Reached) (d : ∀ r, Verdict r) :
    (d s.registry).Holds s.memory := by
  induction reached with
  | start r => exact (d r).holds_blank
  | @step s _ o ih =>
    cases o with
    | request q => exact (d s.registry).kept.request_keeps q ih
    | define added =>
      rcases s.perform_define added with same | ⟨r, defined, same⟩
      · rw [same]
        exact ih
      · rw [same]
        refine ⟨fun name member => ?_, nofun⟩
        obtain ⟨n, resolves⟩ := ih.built name member
        exact ⟨n, resolves.define defined⟩

end TwinShape
