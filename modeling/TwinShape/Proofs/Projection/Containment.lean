import TwinShape.Proofs.Projection.Determinacy
import TwinShape.Proofs.Projection.Inheritance

namespace TwinShape

theorem Table.mem_keys_set {t : Table α} : name ∈ (t.set key a).keys ↔ name = key ∨ name ∈ t.keys := by
  by_cases known : key ∈ t.keys
  · rw [keys_set_of_mem known]
    exact ⟨.inr, fun named => named.elim (· ▸ known) id⟩
  · rw [keys_set_of_not_mem known, List.mem_append, List.mem_singleton, or_comm]

def ObjectShape.names (o : ObjectShape Node) : List String := o.properties.map (·.name)

def Node.Lists (n : Node) (name : String) : Prop := ∃ o, n.object? = some o ∧ name ∈ o.names

theorem Node.lists_iff {n : Node} (object : n.object? = some o) : n.Lists name ↔ name ∈ o.names :=
  ⟨fun ⟨_, found, inside⟩ => Option.some.inj (object.symm.trans found) ▸ inside, fun inside => ⟨o, object, inside⟩⟩

theorem Node.object_rebuilt {n : Node} {s : Shape Node} (object : (n.rebuilt s).object? = some o) : s = .object o :=
  Node.shape_of_object? object

def Merge.Named (m : Merge) : Prop := ∀ entry ∈ m, entry.2.1.name = entry.1

namespace Merge
variable {m after : Merge}

theorem Named.set (named : m.Named) (p : Property Node) (origin : Option Nat) :
    Merge.Named (Table.set m p.name (p, origin)) := by
  intro entry member
  rcases Table.mem_set member with rfl | member
  · rfl
  · exact named entry member

theorem Named.names (named : m.Named) : m.properties.map (·.name) = m.keys := by
  rw [Merge.properties, List.map_map]
  exact List.map_congr_left named

theorem inherit_names (named : m.Named) {ps : List (Property Node)} (accepted : m.inherit origin ps = .ok after) :
    after.Named ∧ ∀ name, name ∈ after.keys ↔ name ∈ m.keys ∨ name ∈ ps.map (·.name) := by
  induction ps generalizing m with
  | nil =>
    cases accepted
    exact ⟨named, fun name => (or_iff_left List.not_mem_nil).symm⟩
  | cons p rest ih =>
    have added : ∀ {m'}, m'.Named → (∀ name, name ∈ m'.keys ↔ name ∈ m.keys ∨ name = p.name) → Merge.inherit m' origin rest = .ok after →
        after.Named ∧ ∀ name, name ∈ after.keys ↔ name ∈ m.keys ∨ name ∈ (p :: rest).map (·.name) := by
      intro m' named' known accepted
      have ⟨named'', keys⟩ := ih named' accepted
      refine ⟨named'', fun name => ?_⟩
      rw [keys, known, List.map_cons, List.mem_cons, or_assoc]
    have set_ : ∀ name, name ∈ Table.keys (Table.set m p.name (p, some origin)) ↔ name ∈ m.keys ∨ name = p.name :=
      fun name => Table.mem_keys_set.trans or_comm
    unfold inherit at accepted
    cases found : m.get? p.name with
    | none =>
      rw [found] at accepted
      exact added (named.set p _) set_ accepted
    | some e =>
      obtain ⟨existing, from_⟩ := e
      rw [found] at accepted
      dsimp only at accepted
      have known : p.name ∈ m.keys := Table.mem_keys_iff.2 ⟨_, found⟩
      split at accepted
      · exact added (named.set p _) set_ accepted
      · cases same : existing.same p with
        | false => rw [same] at accepted; cases accepted
        | true =>
          rw [same] at accepted
          exact added named (fun name => ⟨.inl, fun here => here.elim id (· ▸ known)⟩) accepted

theorem override_names (named : m.Named) (own : List (Property Node)) :
    (m.override own).Named ∧ ∀ name, name ∈ (m.override own).keys ↔ name ∈ m.keys ∨ name ∈ own.map (·.name) := by
  induction own generalizing m with
  | nil => exact ⟨named, fun name => (or_iff_left List.not_mem_nil).symm⟩
  | cons p rest ih =>
    have ⟨named', keys⟩ := ih (named.set p none)
    refine ⟨named', fun name => ?_⟩
    change name ∈ Table.keys (Merge.override _ rest) ↔ _
    rw [keys, Table.mem_keys_set, List.map_cons, List.mem_cons, or_assoc, or_left_comm]

theorem gather_names (named : m.Named) {additional : Additional Node} {outcomes : List (Option Node)}
    {out : Merge × Additional Node}
    (gathered : m.gather origin additional outcomes = some out) :
    out.1.Named ∧ ∀ name, name ∈ out.1.keys ↔ name ∈ m.keys ∨ ∃ n, some n ∈ outcomes ∧ n.Lists name := by
  induction outcomes generalizing origin m additional with
  | nil =>
    cases gathered
    exact ⟨named, fun name => (or_iff_left nofun).symm⟩
  | cons outcome rest ih =>
    cases outcome with
    | none =>
      have ⟨named', keys⟩ := ih named gathered
      refine ⟨named', fun name => (keys name).trans (or_congr_right ?_)⟩
      simp only [List.mem_cons, reduceCtorEq, false_or]
    | some n =>
      rw [gather] at gathered
      cases object : n.object? with
      | none => rw [object] at gathered; cases gathered
      | some o =>
        rw [object] at gathered
        dsimp only at gathered
        cases accepted : m.inherit origin o.properties with
        | error property => rw [accepted] at gathered; cases gathered
        | ok after =>
          rw [accepted] at gathered
          obtain ⟨named', added⟩ := inherit_names named accepted
          obtain ⟨named'', keys⟩ := ih named' gathered
          refine ⟨named'', fun name => ?_⟩
          rw [keys, added, ← ObjectShape.names, ← Node.lists_iff object, or_assoc]
          simp only [List.mem_cons, Option.some.injEq, or_and_right, exists_or, exists_eq_left]

end Merge

-- A node that is not for external use only, nor any property of it.
def Node.Shared (n : Node) : Prop :=
  n.restriction ≠ .only .external ∧ ∀ o, n.shape = .object o → ∀ p ∈ o.properties, p.restriction ≠ .only .external

theorem Restriction.includes_internal {restriction : Restriction} (shared : restriction ≠ .only .external)
    (inside : restriction.includes .external) : restriction.includes .internal := by
  cases restriction with
  | unrestricted => rfl
  | only v =>
    cases v with
    | external => exact absurd rfl shared
    | internal => cases inside

section
variable {r : Registry}

theorem Node.Present.internal {P Q : String → Prop} {n : Node} (present : n.Present .external P)
    (shared : n.Each Node.Shared)
    (step : ∀ name, P name → Q name) : n.Present .internal Q := by
  have child : ∀ {n c : Node}, n.Each Node.Shared → c ∈ n.children → c.Each Node.Shared :=
    fun shared inside => (Node.each_iff.1 shared).2 _ inside
  induction present with
  | object inside shape => exact .object (Restriction.includes_internal (shared _ .self).1 inside) shape
  | array inside shape _ ih =>
    exact .array (Restriction.includes_internal (shared _ .self).1 inside) shape (ih (child shared (Node.child_of_shape shape List.mem_cons_self)))
  | union inside shape member _ ih =>
    exact .union (Restriction.includes_internal (shared _ .self).1 inside) shape member (ih (child shared (Node.child_of_shape shape member)))
  | linked inside shape _ _ first second =>
    exact .linked (Restriction.includes_internal (shared _ .self).1 inside) shape
      (first (child shared (Node.child_of_shape shape List.mem_cons_self)))
      (second (child shared (Node.child_of_shape shape (List.mem_cons_of_mem _ List.mem_cons_self))))
  | reference inside shape target => exact .reference (Restriction.includes_internal (shared _ .self).1 inside) shape (step _ target)
  | leaf inside leaf => exact .leaf (Restriction.includes_internal (shared _ .self).1 inside) leaf

theorem Registry.existing_internal (shared : r.Throughout Node.Shared) :
    r.existing .external ⊆ r.existing .internal := by
  refine subset_existing fun name exists_ => ?_
  obtain ⟨n, resolves, present⟩ := mem_existing_iff.1 exists_
  exact ⟨n, resolves, present.internal (shared name n resolves.1) fun _ => id⟩

theorem Projects.isSome_internal (shared : r.Throughout Node.Shared) {n : Node} {out out' : Option Node}
    (here : n.Each Node.Shared)
    (first : Projects r .external (r.Exactly .external) n out) (second : Projects r .internal (r.Exactly .internal) n out')
    (some_ : out.isSome) : out'.isSome := by
  have present : n.Present .external (· ∈ r.existing .external) := first.present_of_isSome (fun _ exactly => exactly.1 rfl) some_
  refine second.isSome_of_present (fun name exactly exists_ => ?_) (present.internal here fun _ held => Registry.existing_internal shared held)
  exact Bool.false_ne_true (exactly.2 exists_)

theorem Registry.Merges.inside_of_outcome {n source k : Node} (merges : r.Merges v n source)
    (projects : Projects r v answer source (some k)) :
    n.restriction.includes v := by
  cases merges with
  | named inside _ _ => exact inside
  | outside out => cases projects.of_outside out
  | inline =>
    cases included : n.restriction.includes v with
    | true => rfl
    | false => cases projects.of_outside included

theorem Projects.lists_object {merged : Merge} {inherited additional : Additional Node}
    {outcomes : List (Option Node)} {n : Node}
    (gathered : Merge.gather 0 [] .forbidden outcomes = some (merged, inherited)) (own : List (Property Node)) :
    (n.rebuilt (.object ⟨(merged.override own).properties, additional, []⟩)).Lists name ↔
      (∃ k, some k ∈ outcomes ∧ k.Lists name) ∨ name ∈ own.map (·.name) := by
  have ⟨named, keys⟩ := Merge.gather_names (m := []) (List.forall_mem_nil _) gathered
  have ⟨named', keys'⟩ := Merge.override_names named own
  rw [Node.lists_iff rfl, ObjectShape.names, named'.names, keys', keys]
  simp [Table.keys]

theorem Projects.remains_internal (shared : r.Throughout Node.Shared) {p q : Property Node}
    (free : p.restriction ≠ .only .external)
    (here : p.value.Each Node.Shared) (first : p.restriction.includes .external → Projects r .external (r.Exactly .external) p.value out)
    (second : p.restriction.includes .internal → Projects r .internal (r.Exactly .internal) p.value out')
    (remains : p.remains .external out = some q) : ∃ q', p.remains .internal out' = some q' ∧ q'.name = q.name := by
  obtain ⟨included, value, came, rfl⟩ := Property.remains_eq_some.1 remains
  have included' := Restriction.includes_internal free included
  obtain ⟨value', came'⟩ := Option.isSome_iff_exists.1 (isSome_internal shared here (first included) (second included') (came ▸ rfl))
  exact ⟨_, Property.remains_eq_some.2 ⟨included', value', came', rfl⟩, rfl⟩

-- By what comes out externally: every name that a parent or the object itself gives there is
-- given internally by the same one.
theorem Projects.contained (shared : r.Throughout Node.Shared) {n : Node} {out : Option Node}
    (first : Projects r .external (r.Exactly .external) n out) : n.Each Node.Shared →
      ∀ out', Projects r .internal (r.Exactly .internal) n out' → ∀ e ∈ out, ∀ o, e.object? = some o →
        ∃ i ∈ out', ∃ o', i.object? = some o' ∧ o.names ⊆ o'.names := by
  induction first with
  | outside | dropped => exact fun _ _ _ => nofun
  | leaf _ leaf =>
    rintro - _ - _ ⟨⟩ o object
    rw [Node.object_rebuilt object] at leaf
    cases leaf
  | kept =>
    rintro - _ - _ ⟨⟩ o object
    cases Node.object_rebuilt object
  | array =>
    rintro - _ - e came o object
    obtain ⟨_, -, rfl⟩ := Option.map_eq_some_iff.1 came
    cases Node.object_rebuilt object
  | union _ members =>
    rintro - _ - e came o object
    cases all : members.filterMap (·.2) <;> rw [all] at came <;> cases came
    cases Node.object_rebuilt object
  | linked =>
    rintro - _ - e came o object
    obtain ⟨_, -, came⟩ := Option.bind_eq_some_iff.1 came
    obtain ⟨_, -, rfl⟩ := Option.map_eq_some_iff.1 came
    cases Node.object_rebuilt object
  | @object merged inherited rest n additional inside parents properties shape sources projects gathered own further outcomes _ _ =>
    rintro here out' second _ ⟨⟩ o ⟨⟩
    have below := fun c child => (Node.each_iff.1 here).2 c (Node.child_of_shape shape child)
    obtain ⟨parents', properties', merged', inherited', rest', keys, written, sources', gathered', own', further', rfl⟩ :=
      second.of_object (Restriction.includes_internal (here n .self).1 inside) shape
    refine ⟨_, rfl, _, rfl, fun name listed => (Node.lists_iff rfl).1 ((lists_object (n := n) gathered' _).2 ?_)⟩
    refine ((lists_object (n := n) gathered _).1 ((Node.lists_iff rfl).2 listed)).imp ?_ ?_
    · rintro ⟨k, member, o, object, listed⟩
      obtain ⟨p, parent, came⟩ := List.mem_map.1 member
      have known : p.written.Each Node.Shared := below _ (List.mem_append_right _ (List.mem_map_of_mem parent))
      obtain ⟨p', parent', same⟩ := List.mem_map.1 (written ▸ List.mem_map_of_mem parent : p.written ∈ parents'.map (·.written))
      have ⟨merges', projects'⟩ := sources' p' parent'
      have included := (sources p parent).inside_of_outcome (came ▸ projects p parent)
      have source := (sources p parent).source_unique (same ▸ merges') included (Restriction.includes_internal (known _ .self).1 included)
      obtain ⟨i, came', o', object', names⟩ :=
        outcomes p parent ((sources p parent).each shared known) p'.outcome (source ▸ projects') k came o object
      exact ⟨i, List.mem_map.2 ⟨p', parent', came'⟩, o', object', names listed⟩
    · intro known
      obtain ⟨q, kept, rfl⟩ := List.mem_map.1 known
      obtain ⟨p, inside', remains⟩ := List.mem_filterMap.1 kept
      obtain ⟨p', inside'', same⟩ := List.mem_map.1 (keys ▸ List.mem_map_of_mem inside' : p.1 ∈ properties'.map (·.1))
      have listed' : p.1 ∈ properties.map (·.1) := List.mem_map_of_mem inside'
      have child := below p.1.value (List.mem_append_left _ (List.mem_append_left _ (List.mem_map_of_mem listed')))
      obtain ⟨q', remains', name⟩ := remains_internal shared ((here n .self).2 _ shape p.1 listed') child (own p inside')
        (same ▸ own' p' inside'') remains
      exact List.mem_map.2 ⟨q', List.mem_filterMap.2 ⟨p', inside'', same ▸ remains'⟩, name⟩

-- Internally a definition has every property that it has externally, as long as nothing is linked and
-- nothing is for external use only.
theorem Registry.internal_contains_external (unlinked : r.Unlinked) (shared : r.Throughout Node.Shared)
    (external : r.Tells r.InSession name .external (some e)) (object : e.shape = .object o)
    (internal : r.Tells r.InSession name .internal out) :
    ∃ i o', out = some i ∧ i.shape = .object o' ∧ o.names ⊆ o'.names ∧ o.properties.length ≤ o'.properties.length := by
  obtain ⟨n, resolves, projects⟩ := projects_exactly unlinked external
  obtain ⟨n', resolves', projects'⟩ := projects_exactly unlinked internal
  cases resolves.unique resolves'
  obtain ⟨i, rfl, o', object', names⟩ := projects.contained shared (shared name n resolves.1) out projects' e rfl o
    (by rw [Node.object?, object])
  refine ⟨i, o', rfl, Node.shape_of_object? object', names, ?_⟩
  have distinct : o.names.Nodup := by
    obtain ⟨m, -, answered⟩ := external
    obtain ⟨_, _, -, ran⟩ := Inquiry.of_bind_ok (Prod.ext answered rfl)
    have tidy := (project_tidies (congrArg Prod.fst ran) e .self).tidy
    rw [object] at tidy
    exact tidy.1
  have shorter := (List.subperm_of_subset distinct names).length_le
  rwa [ObjectShape.names, ObjectShape.names, List.length_map, List.length_map] at shorter

theorem Registry.diamond_unlinked : diamond.Unlinked :=
  diamond_each (fun s bare => by cases s <;> first | rfl | cases bare) (List.forall_mem_cons.2 ⟨rfl, List.forall_mem_cons.2 ⟨rfl,
    List.forall_mem_cons.2 ⟨rfl, List.forall_mem_singleton.2 rfl⟩⟩⟩)

theorem Node.shared_ofShape {s : Shape Node}
    (each : ∀ o, s = .object o → ∀ p ∈ o.properties, p.restriction ≠ .only .external) :
    (Node.ofShape s).Shared := ⟨nofun, each⟩

theorem Registry.diamond_shared : diamond.Throughout Node.Shared := by
  refine diamond_each (fun s bare => Node.shared_ofShape ?_) ?_
  · rintro o rfl p inside
    rw [Shape.children, List.append_eq_nil_iff, List.append_eq_nil_iff, List.map_eq_nil_iff] at bare
    exact absurd inside (bare.1.1 ▸ List.not_mem_nil)
  · have free : ∀ {o : ObjectShape Node}, (∀ p ∈ o.properties, p.restriction ≠ .only .external) → (Node.ofShape (.object o)).Shared :=
      fun each => Node.shared_ofShape fun _ shape => Shape.object.inj shape ▸ each
    exact List.forall_mem_cons.2 ⟨free (by decide), List.forall_mem_cons.2 ⟨free (by decide), List.forall_mem_cons.2 ⟨free (by decide),
      List.forall_mem_singleton.2 (free (by decide))⟩⟩⟩

-- The internal projection is asked for after the external one.
theorem Registry.internal_contains_external_diamond : ∃ e o i o',
    (diamond.projectDefinition "Child" .external .blank).1 = .ok (some e) ∧ e.shape = .object o ∧
    (diamond.projectDefinition "Child" .internal (diamond.afterAll [.projectDefinition "Child" .external] .blank)).1 = .ok (some i) ∧
    i.shape = .object o' ∧ o.names = ["id", "tag", "left", "right", "self"] ∧ o.names ⊆ o'.names ∧
    o.properties.length ≤ o'.properties.length := by
  have external : (diamond.projectDefinition "Child" .external .blank).1 = .ok (some (.ofShape (.object
      ⟨[.of "id" .string, .of "tag" .number, .of "left" .string, .of "right" .null, .of "self" (.referenceTo "Child")], .allowed, []⟩))) := by
    cbv
  have reached : diamond.InSession (diamond.afterAll [.projectDefinition "Child" .external] .blank) :=
    .step (.start diamond) (.request (.projectDefinition "Child" .external))
  rcases internal : (diamond.projectDefinition "Child" .internal (diamond.afterAll [.projectDefinition "Child" .external] .blank)).1 with
    fault | out
  · have succeeds : (diamond.projectDefinition "Child" .internal
        (diamond.afterAll [.projectDefinition "Child" .external] .blank)).1.toBool = true := by cbv
    rw [internal] at succeeds
    cases succeeds
  · obtain ⟨i, o', rfl, shape, names, fewer⟩ :=
      internal_contains_external diamond_unlinked diamond_shared ⟨_, .start diamond, external⟩ rfl ⟨_, reached, internal⟩
    exact ⟨_, _, i, o', external, rfl, rfl, shape, rfl, names, fewer⟩

end
end TwinShape
