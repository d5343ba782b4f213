import TwinShape.Proofs.Registry.Resolution

namespace TwinShape

-- Records that have come on top of others: one for each key, none for a key that had one, and
-- none for a key that is busy.
def Recorded (busy : List κ) (before after : List (κ × β)) : Prop :=
  ∃ new, after = new ++ before ∧ (new.map (·.1)).Nodup ∧ ∀ key ∈ new.map (·.1), key ∉ before.map (·.1) ∧ key ∉ busy

namespace Recorded
variable {busy : List κ} {before between after : List (κ × β)}

theorem refl : Recorded busy before before := ⟨[], rfl, .nil, List.forall_mem_nil _⟩

theorem trans (first : Recorded busy before between) (second : Recorded busy between after) :
    Recorded busy before after := by
  obtain ⟨new, rfl, once, fresh⟩ := first
  obtain ⟨newer, rfl, once', fresh'⟩ := second
  refine ⟨newer ++ new, (List.append_assoc ..).symm, ?_, ?_⟩
  · rw [List.map_append, List.nodup_append]
    refine ⟨once', once, fun key later other earlier same => (fresh' key later).1 ?_⟩
    rw [same, List.map_append]
    exact List.mem_append_left _ earlier
  · intro key member
    rw [List.map_append] at member
    rcases List.mem_append.1 member with later | earlier
    · refine ⟨fun old => (fresh' key later).1 ?_, (fresh' key later).2⟩
      rw [List.map_append]
      exact List.mem_append_right _ old
    · exact fresh key earlier

theorem fewer (recorded : Recorded (key :: busy) before after) : Recorded busy before after := by
  obtain ⟨new, same, once, fresh⟩ := recorded
  exact ⟨new, same, once, fun other member => ⟨(fresh other member).1, fun met => (fresh other member).2 (List.mem_cons_of_mem _ met)⟩⟩

theorem nodup (recorded : Recorded busy before after) (once : (before.map (·.1)).Nodup) : (after.map (·.1)).Nodup := by
  obtain ⟨new, rfl, once', fresh⟩ := recorded
  rw [List.map_append, List.nodup_append]
  exact ⟨once', once, fun key member other old same => (fresh key member).1 (same ▸ old)⟩

variable [BEq κ] [LawfulBEq κ] {key : κ} {b : β}

theorem not_mem_of_lookup {records : List (κ × β)} (unknown : records.lookup key = none) : key ∉ records.map (·.1) := by
  intro member
  obtain ⟨entry, listed, same⟩ := List.mem_map.1 member
  have apart := List.lookup_eq_none_iff.1 unknown entry listed
  exact bne_iff_ne.1 apart same.symm

theorem lookup (recorded : Recorded busy before after) (known : before.lookup key = some b) :
    after.lookup key = some b := by
  obtain ⟨new, rfl, -, fresh⟩ := recorded
  have old : key ∈ before.map (·.1) := by
    obtain ⟨front, rest, rfl, -⟩ := List.lookup_eq_some_iff.1 known
    exact List.mem_map_of_mem (List.mem_append_right _ List.mem_cons_self)
  have unrecorded : new.lookup key = none := by
    refine List.lookup_eq_none_iff.2 fun entry listed => bne_iff_ne.2 ?_
    rintro rfl
    exact (fresh _ (List.mem_map_of_mem listed)).1 old
  rw [List.lookup_append, unrecorded]
  exact known

theorem record (recorded : Recorded (key :: busy) before after) (unknown : before.lookup key = none)
    (free : key ∉ busy) (b : β) :
    Recorded busy before ((key, b) :: after) := by
  obtain ⟨new, rfl, once, fresh⟩ := recorded
  refine ⟨(key, b) :: new, rfl, List.nodup_cons.2 ⟨fun member => (fresh key member).2 List.mem_cons_self, once⟩, ?_⟩
  rw [List.map_cons]
  refine List.forall_mem_cons.2 ⟨⟨not_mem_of_lookup unknown, free⟩, fun other member => ?_⟩
  exact ⟨(fresh other member).1, fun met => (fresh other member).2 (List.mem_cons_of_mem _ met)⟩

end Recorded

-- What was known is still known, and nothing is found out a second time; nor is anything found
-- out about presence and variation that is being decided.
structure Memory.Onward (projecting : List (String × Variant)) (checking : List String) (m m' : Memory) : Prop where
  built : m.built <+: m'.built
  presence : Recorded projecting m.presence m'.presence
  variation : Recorded checking m.variation m'.variation

namespace Memory.Onward
variable {projecting : List (String × Variant)} {checking : List String} {m m' m'' : Memory}

theorem refl : m.Onward projecting checking m := ⟨List.prefix_rfl, .refl, .refl⟩

theorem trans (first : m.Onward projecting checking m') (second : m'.Onward projecting checking m'') :
    m.Onward projecting checking m'' :=
  ⟨first.built.trans second.built, first.presence.trans second.presence, first.variation.trans second.variation⟩

theorem resolve {r : Registry} (referencing name : String) :
    m.Onward projecting checking (r.resolveFrom referencing name m).2 := by
  have ⟨presence, variation⟩ := Registry.resolveFrom_same (r := r) referencing name m
  refine ⟨?_, presence ▸ .refl, variation ▸ .refl⟩
  have asked := Registry.resolveFrom_asked (r := r) referencing name m
  revert asked
  rcases r.resolveFrom referencing name m with reply
  intro asked
  cases asked with
  | unknown | kept | rejected => exact List.prefix_rfl
  | accepted => exact List.prefix_append ..

theorem recallPresence (onward : m.Onward projecting checking m') {key : String × Variant} {b : Bool}
    (known : m.recallPresence key = some b) :
    m'.recallPresence key = some b := onward.presence.lookup known

theorem recallVariation (onward : m.Onward projecting checking m') {name : String} {b : Bool}
    (known : m.recallVariation name = some b) :
    m'.recallVariation name = some b := onward.variation.lookup known

end Memory.Onward
end TwinShape
