import TwinShape.Proofs.Node.Equivalence
import TwinShape.Proofs.Projection.Merging

namespace TwinShape

theorem eraseDups_concat (l : List String) (name : String) :
    (l ++ [name]).eraseDups = if name ∈ l then l.eraseDups else l.eraseDups ++ [name] := by
  rw [List.eraseDups_append]
  by_cases known : name ∈ l
  · rw [if_pos known]
    simp [List.removeAll, known]
  · rw [if_neg known]
    simp [List.removeAll, known, List.eraseDups_cons]

theorem Table.values_eq {t : Table α} (distinct : t.keys.Nodup) : t.map (·.2) = t.keys.filterMap t.get? := by
  rw [keys, List.filterMap_map, ← List.filterMap_eq_map]
  refine List.filterMap_congr fun entry member => ?_
  have found : t.get? entry.1 = some entry.2 := Table.get?_of_mem distinct member
  exact found.symm

def Agreeing (contributed : List (Property Node)) : Prop :=
  ∀ p ∈ contributed, ∀ q ∈ contributed, p.name = q.name → p.same q = true

-- A contribution that is the first to say something else than has been said before it.
structure Clashes (before : List (Property Node)) (p : Property Node) : Prop where
  agree : Agreeing before
  differ : ∃ q ∈ before, q.name = p.name ∧ q.same p = false

-- The first name, in the order of the contributions, that comes up again with something else.
def FirstClash (contributed : List (Property Node)) (name : String) : Prop :=
  ∃ before p after, contributed = before ++ p :: after ∧ p.name = name ∧ Clashes before p

-- Names in the order in which they first come, with what the object itself says of them, or
-- else with what the first parent does.
def mergedProperties (contributed own : List (Property Node)) : List (Property Node) :=
  ((contributed ++ own).map (·.name)).eraseDups.filterMap fun name => (own ++ contributed).find? (·.name == name)

theorem Agreeing.concat {contributed : List (Property Node)} (agree : Agreeing contributed)
    (settled : ∀ p ∈ contributed, p.Settled)
    {q : Property Node} (settled' : q.Settled) (each : ∀ p ∈ contributed, p.name = q.name → p.same q = true) :
    Agreeing (contributed ++ [q]) := by
  intro p inside o inside' same
  rcases List.mem_append.1 inside with inside | last <;> rcases List.mem_append.1 inside' with inside' | last'
  · exact agree p inside o inside' same
  · cases List.mem_singleton.1 last'
    exact each p inside same
  · cases List.mem_singleton.1 last
    exact Property.same_symm (settled o inside') settled' (each o inside' same.symm)
  · cases List.mem_singleton.1 last
    cases List.mem_singleton.1 last'
    exact Property.same_self settled'

namespace Clashes
variable {before between : List (Property Node)} {p p' : Property Node}

theorem not_agreeing (clash : Clashes before p) (after : List (Property Node)) : ¬Agreeing (before ++ p :: after) := by
  intro agree
  obtain ⟨q, inside, named, differ⟩ := clash.differ
  have same := agree q (List.mem_append_left _ inside) p (List.mem_append_right _ List.mem_cons_self) named
  exact Bool.false_ne_true (differ.symm.trans same)

theorem first (clash : Clashes before p) (clash' : Clashes (before ++ between) p')
    (rest : p :: after = between ++ p' :: after') : p = p' := by
  cases between with
  | nil =>
    cases rest
    rfl
  | cons o between =>
    cases rest
    exact absurd clash'.agree (clash.not_agreeing between)

end Clashes

namespace FirstClash
variable {contributed : List (Property Node)}

theorem not_agreeing (clash : FirstClash contributed name) : ¬Agreeing contributed := by
  obtain ⟨before, p, after, rfl, -, clash⟩ := clash
  exact clash.not_agreeing after

theorem append (clash : FirstClash contributed name) (more : List (Property Node)) :
    FirstClash (contributed ++ more) name := by
  obtain ⟨before, p, after, rfl, rest⟩ := clash
  exact ⟨before, p, after ++ more, List.append_assoc .., rest⟩

theorem unique (clash : FirstClash contributed name) (clash' : FirstClash contributed name') : name = name' := by
  obtain ⟨before, p, after, rfl, rfl, clash⟩ := clash
  obtain ⟨before', p', after', parts, rfl, clash'⟩ := clash'
  rcases List.append_eq_append_iff.1 parts with ⟨between, rfl, rest⟩ | ⟨between, rfl, rest⟩
  · rw [clash.first clash' rest]
  · rw [clash'.first clash rest]

end FirstClash

-- What a merge has come to after contributions of parents and then some properties of the object.
structure Merge.Collects (m : Merge) (contributed own : List (Property Node)) : Prop where
  keys : m.keys = ((contributed ++ own).map (·.name)).eraseDups
  distinct : m.keys.Nodup
  value : ∀ name, (m.get? name).map (·.1) = (own ++ contributed).find? (·.name == name)

def Merge.Sources (m : Merge) (origin : Nat) (taken : List String) : Prop :=
  ∀ name e, m.get? name = some e → ∃ i, e.2 = some i ∧ i ≤ origin ∧ (i = origin → name ∈ taken)

theorem find?_concat (l : List (Property Node)) (p : Property Node) (name : String) :
    (l ++ [p]).find? (·.name == name) = (l.find? (·.name == name)).or (if p.name = name then some p else none) := by
  rw [List.find?_append]
  by_cases same : p.name = name <;> simp [same]

namespace Merge
variable {m : Merge} {contributed own : List (Property Node)} {p : Property Node}

theorem collects_nil : Merge.Collects [] [] [] := ⟨rfl, List.nodup_nil, fun _ => rfl⟩

namespace Collects

theorem mem_keys (collects : m.Collects contributed own) :
    name ∈ m.keys ↔ name ∈ (contributed ++ own).map (·.name) := by
  rw [collects.keys, List.mem_eraseDups]

theorem properties (collects : m.Collects contributed own) : m.properties = mergedProperties contributed own := by
  have values := congrArg (List.map (·.1)) (Table.values_eq collects.distinct)
  rw [List.map_map, List.map_filterMap, collects.keys] at values
  exact values.trans (List.filterMap_congr fun name _ => collects.value name)

theorem take (collects : m.Collects contributed []) (fresh : p.name ∉ m.keys) (origin : Option Nat) :
    Merge.Collects (m.set p.name (p, origin)) (contributed ++ [p]) [] := by
  have unknown : p.name ∉ contributed.map (·.name) := by
    have fresh := mt collects.mem_keys.2 fresh
    rwa [List.append_nil] at fresh
  refine ⟨?_, Table.nodup_keys_set collects.distinct _ _, fun name => ?_⟩
  · rw [Table.keys_set_of_not_mem fresh, collects.keys, List.append_nil, List.append_nil, List.map_append, List.map_singleton,
      eraseDups_concat, if_neg unknown]
  · have before := collects.value name
    rw [List.nil_append] at before
    rw [Table.get?_set, List.nil_append, find?_concat, ← before]
    by_cases same : name = p.name
    · have none_ : m.get? name = none := by
        cases found : m.get? name with
        | none => rfl
        | some e => exact absurd (Table.mem_keys_iff.2 ⟨e, found⟩) (same ▸ fresh)
      rw [if_pos same, if_pos same.symm, none_]
      rfl
    · rw [if_neg same, if_neg (Ne.symm same), Option.or_none]

theorem skip (collects : m.Collects contributed []) (known : p.name ∈ m.keys) : m.Collects (contributed ++ [p]) [] := by
  have known' := collects.mem_keys.1 known
  rw [List.append_nil] at known'
  refine ⟨?_, collects.distinct, fun name => ?_⟩
  · rw [collects.keys, List.append_nil, List.append_nil, List.map_append, List.map_singleton, eraseDups_concat, if_pos known']
  · have before := collects.value name
    rw [List.nil_append] at before
    rw [List.nil_append, find?_concat, before]
    by_cases same : p.name = name
    · obtain ⟨e, found⟩ := Table.mem_keys_iff.1 known
      rw [← before, ← same, found]
      rfl
    · rw [if_neg same, Option.or_none]

theorem replace (collects : m.Collects contributed own) (fresh : p.name ∉ own.map (·.name)) :
    Merge.Collects (m.set p.name (p, none)) contributed (own ++ [p]) := by
  refine ⟨?_, Table.nodup_keys_set collects.distinct _ _, fun name => ?_⟩
  · rw [← List.append_assoc, List.map_append, List.map_singleton, eraseDups_concat]
    split
    · rename_i known
      rw [Table.keys_set_of_mem (collects.mem_keys.2 known), collects.keys]
    · rename_i unknown
      rw [Table.keys_set_of_not_mem (mt collects.mem_keys.1 unknown), collects.keys]
  · have before := collects.value name
    rw [List.find?_append] at before
    rw [Table.get?_set, List.find?_append, find?_concat]
    by_cases same : name = p.name
    · have unowned : own.find? (·.name == name) = none :=
        List.find?_eq_none.2 fun q inside named => fresh (List.mem_map.2 ⟨q, inside, (beq_iff_eq.1 named).trans same⟩)
      rw [if_pos same, if_pos same.symm, unowned]
      rfl
    · rw [if_neg same, if_neg (Ne.symm same), Option.or_none]
      exact before

end Collects

theorem Sources.more {origin : Nat} {taken : List String} (sources : m.Sources origin taken) (name : String) :
    m.Sources origin (taken ++ [name]) := by
  intro other e entry
  obtain ⟨i, from_, le, here⟩ := sources other e entry
  exact ⟨i, from_, le, fun now => List.mem_append_left _ (here now)⟩

theorem Sources.take {origin : Nat} {taken : List String} (sources : m.Sources origin taken) (p : Property Node) :
    Merge.Sources (m.set p.name (p, some origin)) origin (taken ++ [p.name]) := by
  intro name e entry
  rw [Table.get?_set] at entry
  split at entry
  · rename_i same
    cases entry
    exact ⟨origin, rfl, Nat.le_refl _, fun _ => List.mem_append_right _ (List.mem_singleton.2 same)⟩
  · exact sources.more p.name name e entry

theorem Sources.fresh {origin : Nat} {taken : List String} (sources : m.Sources origin taken) (new : name ∉ taken)
    (found : m.get? name = some e) : e.2 ≠ some origin := by
  obtain ⟨i, from_, -, here⟩ := sources name e found
  rintro now
  exact new (here (Option.some.inj (from_.symm.trans now)))

-- Parent by parent: what the first `origin` of them gave is kept, and the next one's properties
-- come in as far as they are new.
theorem inherit_collects {origin : Nat} {taken : List String} (collects : m.Collects contributed [])
    (agree : Agreeing contributed)
    (sources : m.Sources origin taken) {qs : List (Property Node)} (distinct : (taken ++ qs.map (·.name)).Nodup)
    (settled : ∀ p ∈ contributed ++ qs, p.Settled) :
    match m.inherit origin qs with
    | .error name => FirstClash (contributed ++ qs) name
    | .ok after => after.Collects (contributed ++ qs) [] ∧ Agreeing (contributed ++ qs) ∧
        after.Sources origin (taken ++ qs.map (·.name)) := by
  induction qs generalizing m contributed taken with
  | nil =>
    rw [List.map_nil, List.append_nil, List.append_nil]
    exact ⟨collects, agree, sources⟩
  | cons q rest ih =>
    have new : q.name ∉ taken := fun known => (List.nodup_append.1 distinct).2.2 _ known _ List.mem_cons_self rfl
    have settled' : q.Settled := settled q (List.mem_append_right _ List.mem_cons_self)
    have before := fun p (inside : p ∈ contributed) => settled p (List.mem_append_left _ inside)
    have value := collects.value q.name
    rw [List.nil_append] at value
    rw [show contributed ++ q :: rest = (contributed ++ [q]) ++ rest from by rw [List.append_assoc, List.singleton_append]] at settled ⊢
    rw [show taken ++ (q :: rest).map (·.name) = (taken ++ [q.name]) ++ rest.map (·.name) from by
      rw [List.append_assoc, List.singleton_append, List.map_cons]] at distinct ⊢
    unfold inherit
    cases found : m.get? q.name with
    | none =>
      have fresh : q.name ∉ m.keys := fun known => by
        obtain ⟨e, found'⟩ := Table.mem_keys_iff.1 known
        cases found.symm.trans found'
      rw [found] at value
      refine ih (collects.take fresh (some origin)) (agree.concat before settled' fun p inside same => ?_) (sources.take q) distinct settled
      exact absurd (beq_iff_eq.2 same) (List.find?_eq_none.1 value.symm p inside)
    | some e =>
      obtain ⟨existing, from_⟩ := e
      rw [found] at value
      have first : contributed.find? (·.name == q.name) = some existing := value.symm
      have inside : existing ∈ contributed := List.mem_of_find?_eq_some first
      have named : existing.name = q.name := by simpa using List.find?_some first
      dsimp only
      rw [if_neg (sources.fresh new found)]
      cases same : existing.same q with
      | false => exact FirstClash.append ⟨contributed, q, [], rfl, rfl, agree, existing, inside, named, same⟩ rest
      | true =>
        refine ih (collects.skip (Table.mem_keys_iff.2 ⟨_, found⟩)) (agree.concat before settled' fun p inside' same' => ?_)
          (sources.more q.name) distinct settled
        exact Property.same_trans (before p inside') (agree p inside' existing inside (same'.trans named.symm)) same

theorem override_collects (collects : m.Collects contributed own) {rest : List (Property Node)}
    (distinct : ((own ++ rest).map (·.name)).Nodup) :
    (m.override rest).Collects contributed (own ++ rest) := by
  induction rest generalizing m own with
  | nil => rwa [List.append_nil]
  | cons p rest ih =>
    have fresh : p.name ∉ own.map (·.name) := by
      rw [List.map_append, List.map_cons] at distinct
      exact fun known => (List.nodup_append.1 distinct).2.2 _ known _ List.mem_cons_self rfl
    have parts : own ++ p :: rest = (own ++ [p]) ++ rest := by rw [List.append_assoc, List.singleton_append]
    rw [parts] at distinct ⊢
    exact ih (collects.replace fresh) distinct

end Merge
end TwinShape
