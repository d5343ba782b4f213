import TwinShape.Json.Value
import TwinShape.Proofs.Agreement

namespace TwinShape

theorem Table.get?_of_mem {t : Table α} (distinct : t.keys.Nodup) (member : (key, a) ∈ t) :
    t.get? key = some a := by
  induction t with
  | nil => cases member
  | cons entry rest ih =>
    obtain ⟨k, b⟩ := entry
    obtain ⟨fresh, distinct⟩ := List.nodup_cons.1 distinct
    rw [get?_cons]
    rcases List.mem_cons.1 member with same | member
    · cases same
      rw [if_pos rfl]
    · have other : key ≠ k := fun same => fresh (same ▸ List.mem_map_of_mem (f := (·.1)) member)
      rw [if_neg other]
      exact ih distinct member

theorem Table.mem_of_get? {t : Table α} (found : t.get? key = some a) : (key, a) ∈ t := by
  induction t with
  | nil => cases found
  | cons entry rest ih =>
    obtain ⟨k, b⟩ := entry
    rw [get?_cons] at found
    split at found
    · rename_i same
      cases found
      exact same ▸ List.mem_cons_self
    · exact List.mem_cons_of_mem _ (ih found)

-- Documents in which no object has a key twice.
inductive Json.Settled : Json → Prop
  | null : Settled .null
  | bool (b : Bool) : Settled (.bool b)
  | number (n : Number) : Settled (.number n)
  | string (s : String) : Settled (.string s)
  | array (each : ∀ j ∈ items, Settled j) : Settled (.array items)
  | object {fields : List (String × Json)} (distinct : (Table.keys fields).Nodup)
      (each : ∀ f ∈ fields, Settled f.2) : Settled (.object fields)

namespace Json

theorem sameItems_self {items : List Json} (each : ∀ j ∈ items, j.same j = true) : sameItems items items = true := by
  induction items with
  | nil => rfl
  | cons j rest ih =>
    rw [sameItems, each j List.mem_cons_self, ih fun k member => each k (List.mem_cons_of_mem _ member)]
    rfl

theorem sameFields_self {fields all : List (String × Json)} (each : ∀ f ∈ fields, f.2.same f.2 = true)
    (found : ∀ f ∈ fields, Table.get? all f.1 = some f.2) : sameFields fields all = true := by
  induction fields with
  | nil => rfl
  | cons f rest ih =>
    obtain ⟨key, j⟩ := f
    have here : Table.get? all key = some j := found _ List.mem_cons_self
    have same : j.same j = true := each _ List.mem_cons_self
    rw [sameFields, here]
    dsimp only
    rw [same, ih (fun g member => each g (List.mem_cons_of_mem _ member))
      (fun g member => found g (List.mem_cons_of_mem _ member))]
    rfl

theorem Settled.same_self {j : Json} (settled : j.Settled) : j.same j = true := by
  induction settled with
  | null => rfl
  | bool b => exact beq_self_eq_true b
  | number n => cases n <;> exact beq_self_eq_true _
  | string s => exact beq_self_eq_true s
  | array _ ih => exact sameItems_self ih
  | object distinct _ ih =>
    rw [same, beq_self_eq_true]
    exact sameFields_self ih fun f member => Table.get?_of_mem distinct member

end Json

namespace Table

theorem nodup_keys_setAll {t : Table α} (distinct : t.keys.Nodup) (entries : List (String × α)) :
    (t.setAll entries).keys.Nodup := by
  induction entries generalizing t with
  | nil => exact distinct
  | cons entry rest ih => exact ih (nodup_keys_set distinct _ _)

theorem mem_set {t : Table α} {entry : String × α} (member : entry ∈ t.set key a) : entry = (key, a) ∨ entry ∈ t := by
  induction t with
  | nil => exact .inl (List.mem_singleton.1 member)
  | cons first rest ih =>
    obtain ⟨k, b⟩ := first
    rw [set] at member
    split at member
    · rename_i same
      rcases List.mem_cons.1 member with here | member
      · exact .inl (same ▸ here)
      · exact .inr (List.mem_cons_of_mem _ member)
    · rcases List.mem_cons.1 member with here | member
      · exact .inr (here ▸ List.mem_cons_self)
      · exact (ih member).imp_right (List.mem_cons_of_mem _)

theorem mem_setAll {t : Table α} {entries : List (String × α)} {entry : String × α}
    (member : entry ∈ t.setAll entries) : entry ∈ entries ∨ entry ∈ t := by
  induction entries generalizing t with
  | nil => exact .inr member
  | cons first rest ih =>
    rcases ih member with later | before
    · exact .inl (List.mem_cons_of_mem _ later)
    · rcases mem_set before with rfl | before
      · exact .inl List.mem_cons_self
      · exact .inr before

end Table

end TwinShape
