import Mathlib
import TwinShape.Node.Builder
import TwinShape.Proofs.Projection.Flattening
import TwinShape.Proofs.Projection.Gathering
import TwinShape.Proofs.Variation.Exactness
import TwinShape.Schema.Evaluator

namespace TwinShape

def Additional.isForbidden : Additional ν → Bool
  | .forbidden => true
  | _ => false

-- The last setting that does not forbid, or else what was there before.
def Additional.lastAllowing (before : Additional Node) (settings : List (Additional Node)) : Additional Node :=
  (settings.filter fun setting => !setting.isForbidden).getLastD before

theorem Additional.lastAllowing_cons (before parent : Additional Node) (rest : List (Additional Node)) :
    before.lastAllowing (parent :: rest) = (before.inherit parent).lastAllowing rest := by
  unfold lastAllowing
  cases parent with
  | forbidden => rw [List.filter_cons_of_neg (by simp [isForbidden])]; rfl
  | allowed | shape _ => rw [List.filter_cons_of_pos (by simp [isForbidden]), List.getLastD_cons]; rfl

-- The object that comes of what parents contribute and what an object keeps of its own. The own
-- setting is `written` before projection and `projected` after it.
def ObjectShape.merged (flattened : List (ObjectShape Node)) (own : List (Property Node))
    (written projected : Additional Node) :
    ObjectShape Node where
  properties := mergedProperties (contributions flattened) own
  additional := if written.isForbidden then Additional.forbidden.lastAllowing (flattened.map (·.additional)) else projected
  parents := []

section
variable {r : Registry} {v : Variant} {scope : Scope} {t t' : Trail}

theorem objectOf?_from {outcome : Option Node} (ran : objectOf? scope outcome t = (.ok (some o), t')) :
    ∃ out, outcome = some out ∧ out.shape = .object o ∧ t' = t := by
  cases outcome with
  | none => cases ran
  | some n =>
    obtain ⟨shape, annotations, optionality, restriction, misuse⟩ := n
    cases shape <;> cases ran
    exact ⟨_, rfl, rfl, rfl⟩

theorem projectParent_from {n : Node} (ran : projectParent r v scope n t = (.ok (some o), t')) :
    ∃ out t₁, ParentProjects r v scope n out t₁ t' ∧ out.shape = .object o := by
  cases named : n.referenceName? with
  | none =>
    rw [projectParent_inline named] at ran
    obtain ⟨outcome, t₁, projected, ran⟩ := Inquiry.of_bind_ok ran
    obtain ⟨out, rfl, shape, rfl⟩ := objectOf?_from ran
    exact ⟨out, t, .inline_ named projected, shape⟩
  | some name =>
    have shape := Node.shape_of_referenceName named
    rw [projectParent_named shape] at ran
    split at ran
    · cases ran
    · split at ran
      · obtain ⟨target, t₁, -, ran⟩ := Inquiry.of_bind_ok ran
        obtain ⟨outcome, t₂, projected, ran⟩ := Inquiry.of_bind_ok ran
        obtain ⟨out, rfl, object, rfl⟩ := objectOf?_from ran
        exact ⟨out, t₁, .named shape target.property projected, object⟩
      · cases ran

def ObjectShape.Sound (o : ObjectShape Node) : Prop :=
  (o.properties.map (·.name)).Nodup ∧ ∀ p ∈ o.properties, p.Settled

theorem projectParent_sound (settled : r.Settled) {n : Node} (known : n.Each Node.Settled)
    (ran : projectParent r v scope n t = (.ok (some o), t')) : o.Sound := by
  obtain ⟨out, t₁, projects, shape⟩ := projectParent_from ran
  have all : out.Each fun x => x.shape.Tidy ∧ x.Settled := by
    cases projects with
    | inline_ _ projected => exact Registry.node_out (.settled r v) settled known projected
    | named _ found projected => exact Registry.node_out (.settled r v) settled (settled _ _ found) projected
  have tidy := (all out .self).1
  rw [shape] at tidy
  refine ⟨tidy.1, fun p inside x part => (all x (.inside (Node.child_of_shape shape ?_) part)).2⟩
  exact List.mem_append_left _ (List.mem_append_left _ (List.mem_map_of_mem inside))

-- Parents are merged one after the other, so a clash is found before later parents are looked at.
theorem parents_merge (settled : r.Settled) {ms : List Node} (known : ∀ n ∈ ms, n.Each Node.Settled)
    {flattened : List (ObjectShape Node)}
    (ran : flattenParents r v scope ms t = (.ok flattened, t')) {origin : Nat} {m : Merge} {contributed : List (Property Node)}
    (collects : m.Collects contributed []) (agree : Agreeing contributed) (sources : ∀ name e, m.get? name = some e → ∃ i, e.2 = some i ∧ i < origin)
    (before : ∀ p ∈ contributed, p.Settled) (additional : Additional Node) :
    (∃ name t₁, projectParents r v scope origin m additional ms t = (.error (.extendsCollision scope.definition name), t₁) ∧
      FirstClash (contributed ++ contributions flattened) name) ∨
    ∃ after, projectParents r v scope origin m additional ms t = (.ok (after, additional.lastAllowing (flattened.map (·.additional))), t') ∧
      after.Collects (contributed ++ contributions flattened) [] ∧ Agreeing (contributed ++ contributions flattened) := by
  induction ms generalizing t origin m contributed additional flattened with
  | nil =>
    cases ran
    rw [show contributions [] = [] from rfl, List.append_nil, projectParents]
    exact .inr ⟨m, rfl, collects, agree⟩
  | cons n rest ih =>
    rw [flattenParents] at ran
    obtain ⟨parent, t₁, first, ran⟩ := Inquiry.of_bind_ok ran
    obtain ⟨others, t₂, later, ran⟩ := Inquiry.of_bind_ok ran
    cases ran
    rw [projectParents, Inquiry.bind_ok first]
    have known' := fun k inside => known k (List.mem_cons_of_mem _ inside)
    cases parent with
    | none =>
      refine ih known' later collects agree (fun name e entry => ?_) before additional
      obtain ⟨i, from_, lt⟩ := sources name e entry
      exact ⟨i, from_, Nat.lt_succ_of_lt lt⟩
    | some o =>
      obtain ⟨distinct, each⟩ := projectParent_sound settled (known n List.mem_cons_self) first
      have here : m.Sources origin [] := fun name e entry => by
        obtain ⟨i, from_, lt⟩ := sources name e entry
        exact ⟨i, from_, Nat.le_of_lt lt, fun now => absurd now (Nat.ne_of_lt lt)⟩
      have all : ∀ p ∈ contributed ++ o.properties, p.Settled := List.forall_mem_append.2 ⟨before, each⟩
      have merges := Merge.inherit_collects collects agree here distinct all
      rw [Option.toList_some, List.singleton_append, show contributions (o :: others) = o.properties ++ contributions others from List.flatMap_cons,
        ← List.append_assoc, List.map_cons, Additional.lastAllowing_cons]
      dsimp only
      cases inherits : m.inherit origin o.properties with
      | error name =>
        rw [inherits] at merges
        exact .inl ⟨name, t₁, rfl, merges.append _⟩
      | ok after =>
        rw [inherits] at merges
        refine ih known' later merges.1 merges.2.1 (fun name e entry => ?_) all (additional.inherit o.additional)
        obtain ⟨i, from_, le, -⟩ := merges.2.2 name e entry
        exact ⟨i, from_, Nat.lt_succ_of_le le⟩

theorem projectProperties_names {ps own : List (Property Node)}
    (ran : projectProperties r v scope ps t = (.ok own, t')) :
    (own.map (·.name)).Sublist (ps.map (·.name)) := by
  induction ps generalizing own t with
  | nil =>
    rw [projectProperties] at ran
    cases ran
    exact .slnil
  | cons p rest ih =>
    obtain ⟨name, value, restriction⟩ := p
    rw [projectProperties] at ran
    split at ran
    · obtain ⟨kept, t₁, -, ran⟩ := Inquiry.of_bind_ok ran
      obtain ⟨others, t₂, later, ran⟩ := Inquiry.of_bind_ok ran
      cases ran
      cases kept with
      | none => exact .cons _ (ih later)
      | some n => exact .cons_cons _ (ih later)
    · exact .cons _ (ih ran)

-- What is inherited matters only to an object that forbids further properties itself.
theorem projectAdditional_inherits {own setting : Additional Node}
    (ran : projectAdditional r v scope .forbidden own t = (.ok setting, t'))
    (inherited : Additional Node) :
    projectAdditional r v scope inherited own t = (.ok (if own.isForbidden then inherited else setting), t') := by
  cases own with
  | forbidden =>
    rw [projectAdditional] at ran ⊢
    cases ran
    rfl
  | allowed =>
    rw [projectAdditional] at ran ⊢
    exact ran
  | shape n =>
    rw [projectAdditional] at ran ⊢
    exact ran

-- The merge of what an object extends, at any place of a projection. What the object says itself does
-- not settle what its parents disagree about.
theorem extends_merge (settled : r.Settled) {o : ObjectShape Node} (known : ∀ n ∈ o.parents, n.Each Node.Settled)
    (distinct : (o.properties.map (·.name)).Nodup) (flattens : flattenParents r v scope o.parents t = (.ok flattened, t₁))
    (owns : projectProperties r v scope o.properties t₁ = (.ok own, t₂))
    (allows : projectAdditional r v scope .forbidden o.additional t₂ = (.ok setting, t₃)) :
    (∀ name, (projectShape r v scope (.object o) t).1 = .error (.extendsCollision scope.definition name) ↔
      FirstClash (contributions flattened) name) ∧
    ((∃ name, (projectShape r v scope (.object o) t).1 = .error (.extendsCollision scope.definition name)) ↔
      ¬Agreeing (contributions flattened)) ∧
    (Agreeing (contributions flattened) →
      projectShape r v scope (.object o) t = (.ok (some (.object (.merged flattened own o.additional setting))), t₃)) := by
  obtain ⟨properties, additional, parents⟩ := o
  have sources : ∀ name e, Table.get? ([] : Merge) name = some e → ∃ i, e.2 = some i ∧ i < 0 := nofun
  have merges := parents_merge settled known flattens Merge.collects_nil (List.forall_mem_nil _) sources (List.forall_mem_nil _) .forbidden
  rw [List.nil_append] at merges
  rcases merges with ⟨name, t', failed, clash⟩ | ⟨merged, done, collects, agree⟩
  · have fails : projectShape r v scope (.object ⟨properties, additional, parents⟩) t = (.error (.extendsCollision scope.definition name), t') := by
      rw [projectShape]
      exact Inquiry.bind_error failed
    rw [fails]
    refine ⟨fun name' => ⟨fun same => ?_, fun clash' => ?_⟩, iff_of_true ⟨name, rfl⟩ clash.not_agreeing, fun agree => absurd agree clash.not_agreeing⟩
    · cases same
      exact clash
    · rw [clash.unique clash']
  · have names : (([] ++ own : List (Property Node)).map (·.name)).Nodup := (projectProperties_names owns).nodup distinct
    have owned := Merge.override_collects collects names
    have succeeds : projectShape r v scope (.object ⟨properties, additional, parents⟩) t =
        (.ok (some (.object (.merged flattened own additional setting))), t₃) := by
      rw [projectShape, Inquiry.bind_ok done]
      dsimp only
      rw [Inquiry.bind_ok owns, Inquiry.bind_ok (projectAdditional_inherits allows _), owned.properties]
      rfl
    have unfailing : ∀ fault, (projectShape r v scope (.object ⟨properties, additional, parents⟩) t).1 ≠ .error fault := by
      intro fault failed
      rw [succeeds] at failed
      cases failed
    refine ⟨fun name => iff_of_false (unfailing _) fun clash => clash.not_agreeing agree, iff_of_false ?_ (not_not_intro agree), fun _ => succeeds⟩
    exact not_exists.2 fun name => unfailing _

end

-- Both parents extend the same definition. One property replaces an inherited one, and one
-- would, but does not exist externally.
def joined : ObjectShape Node :=
  ⟨[.of "right" .null, .onlyIn (.of "tag" .null) .internal, .of "self" (.referenceTo "Child"), .onlyIn (.of "note" .string) .internal],
    .forbidden, [.referenceTo "Left", .referenceTo "Right"]⟩

def Registry.diamond : Registry :=
  ⟨[⟨"Base", .ofShape (.object ⟨[.of "id" .string, .of "tag" .number], .allowed, []⟩)⟩,
    ⟨"Left", .ofShape (.object ⟨[.of "left" .string], .forbidden, [.referenceTo "Base"]⟩)⟩,
    ⟨"Right", .ofShape (.object ⟨[.of "right" .boolean], .forbidden, [.referenceTo "Base"]⟩)⟩,
    ⟨"Child", .ofShape (.object joined)⟩], by decide, .builtIn⟩

theorem Registry.diamond_each {A : Node → Prop} (leaf : ∀ s : Shape Node, s.children = [] → A (.ofShape s))
    (objects : ∀ d ∈ diamond.definitions, A d.node) : ∀ name n, diamond.find? name = some n → n.Each A := by
  have flat : ∀ d ∈ diamond.definitions, ∀ c ∈ d.node.children, c = .ofShape c.shape ∧ c.children = [] := by
    have one : ∀ {s : Shape Node} {rest : List Node}, s.children = [] → (∀ c ∈ rest, c = .ofShape c.shape ∧ c.children = []) →
        ∀ c ∈ Node.ofShape s :: rest, c = .ofShape c.shape ∧ c.children = [] :=
      fun bare each => List.forall_mem_cons.2 ⟨⟨rfl, bare⟩, each⟩
    refine List.forall_mem_cons.2 ⟨?_, List.forall_mem_cons.2 ⟨?_, List.forall_mem_cons.2 ⟨?_, List.forall_mem_singleton.2 ?_⟩⟩⟩
    · exact one rfl (one rfl nofun)
    · exact one rfl (one rfl nofun)
    · exact one rfl (one rfl nofun)
    · exact one rfl (one rfl (one rfl (one rfl (one rfl (one rfl nofun)))))
  intro name n found
  obtain ⟨d, listed, rfl⟩ := mem_of_find? found
  refine Node.each_iff.2 ⟨objects d listed, fun c child => ?_⟩
  obtain ⟨same, bare⟩ := flat d listed c child
  exact Node.each_of_bare bare (same ▸ leaf c.shape bare)

theorem Node.settled_ofShape (s : Shape Node) : (Node.ofShape s).Settled := ⟨nofun, nofun⟩

theorem Registry.diamond_settled : diamond.Settled :=
  diamond_each (fun s _ => Node.settled_ofShape s) (List.forall_mem_cons.2 ⟨Node.settled_ofShape _, List.forall_mem_cons.2
    ⟨Node.settled_ofShape _, List.forall_mem_cons.2 ⟨Node.settled_ofShape _, List.forall_mem_singleton.2 (Node.settled_ofShape _)⟩⟩⟩)

theorem extends_merge_diamond : ∃ flattened t₁ own t₂ t₃,
    flattenParents .diamond .external (.start "Child" []) joined.parents ⟨.blank, false⟩ = (.ok flattened, t₁) ∧
    projectProperties .diamond .external (.start "Child" []) joined.properties t₁ = (.ok own, t₂) ∧
    projectAdditional .diamond .external (.start "Child" []) .forbidden joined.additional t₂ = (.ok .forbidden, t₃) ∧
    projectShape .diamond .external (.start "Child" []) (.object joined) ⟨.blank, false⟩ =
      (.ok (some (.object (.merged flattened own joined.additional .forbidden))), t₃) ∧
    ObjectShape.merged flattened own joined.additional .forbidden =
      ⟨[.of "id" .string, .of "tag" .number, .of "left" .string, .of "right" .null, .of "self" (.referenceTo "Child")], .allowed, []⟩ := by
  have flattens : flattenParents .diamond .external (.start "Child" []) joined.parents ⟨.blank, false⟩ =
      (.ok [⟨[.of "id" .string, .of "tag" .number, .of "left" .string], .allowed, []⟩,
        ⟨[.of "id" .string, .of "tag" .number, .of "right" .boolean], .allowed, []⟩],
        ⟨⟨["Left", "Base", "Right"], ["Left", "Base", "Right"], [], []⟩, false⟩) := by cbv
  have owns : projectProperties .diamond .external (.start "Child" []) joined.properties
        ⟨⟨["Left", "Base", "Right"], ["Left", "Base", "Right"], [], []⟩, false⟩ =
      (.ok [.of "right" .null, .of "self" (.referenceTo "Child")],
        ⟨⟨["Left", "Base", "Right", "Child"], ["Left", "Base", "Right", "Child"], [(("Child", .external), true)], []⟩, true⟩) := by cbv
  have allows : ∀ t, projectAdditional .diamond .external (.start "Child" []) .forbidden joined.additional t = (.ok .forbidden, t) := by
    intro t
    rw [show joined.additional = .forbidden from rfl, projectAdditional]
    rfl
  have known : ∀ n ∈ joined.parents, n.Each Node.Settled :=
    List.forall_mem_cons.2 ⟨Node.each_of_bare rfl (Node.settled_ofShape _),
      List.forall_mem_singleton.2 (Node.each_of_bare rfl (Node.settled_ofShape _))⟩
  obtain ⟨-, fails, merges⟩ := extends_merge Registry.diamond_settled (o := joined) known (by decide) flattens owns (allows _)
  have succeeds : (projectShape .diamond .external (.start "Child" []) (.object joined) ⟨.blank, false⟩).1.toBool = true := by cbv
  refine ⟨_, _, _, _, _, flattens, owns, allows _, merges (Classical.not_not.1 fun apart => ?_), by cbv⟩
  obtain ⟨name, failed⟩ := fails.2 apart
  rw [failed] at succeeds
  cases succeeds

-- What the object says itself does not settle what its parents disagree about.
example : (projectShape .diamond .external (.start "Other" [])
    (.object ⟨[.of "tag" .null], .forbidden, [.referenceTo "Left", .ofProperties [.of "tag" .string]]⟩) ⟨.blank, false⟩).1 =
      .error (.extendsCollision "Other" "tag") := by cbv

end TwinShape
