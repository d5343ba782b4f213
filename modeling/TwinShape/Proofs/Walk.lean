import Mathlib.Data.List.Nodup
import TwinShape.Proofs.Json.Settled

namespace TwinShape

namespace Table
variable {W W' : String → α → β → Prop} {t : Table α} {u : Table β}

theorem mem_keys_of_mem {t : Table α} (member : (key, a) ∈ t) : key ∈ t.keys := List.mem_map_of_mem member

theorem exists_of_mem_keys {t : Table α} (member : key ∈ t.keys) : ∃ a, (key, a) ∈ t := by
  obtain ⟨⟨k, a⟩, inside, same⟩ := List.mem_map.1 member
  exact ⟨a, same ▸ inside⟩

theorem keys_reverse (t : Table α) : Table.keys t.reverse = t.keys.reverse := List.map_reverse

theorem get?_reverse {t : Table α} (distinct : t.keys.Nodup) (key : String) :
    Table.get? t.reverse key = t.get? key := by
  have distinct' : (Table.keys t.reverse).Nodup := by
    rw [keys_reverse]
    exact List.nodup_reverse.2 distinct
  ext a
  constructor
  · intro found
    exact get?_of_mem distinct (List.mem_reverse.1 (mem_of_get? found))
  · intro found
    exact get?_of_mem distinct' (List.mem_reverse.2 (mem_of_get? found))

theorem Rel.keys (related : Rel W t u) : t.keys = u.keys := by
  induction related with
  | nil => rfl
  | cons head _ ih => exact congrArg₂ List.cons head.1 ih

theorem Rel.weaken_mem (related : Rel W t u) (weaker : ∀ k a b, k ∈ t.keys → W k a b → W' k a b) : Rel W' t u := by
  induction related with
  | nil => exact .nil
  | cons head _ ih =>
    refine .cons ⟨head.1, weaker _ _ _ List.mem_cons_self head.2⟩ (ih fun k a b member => ?_)
    exact weaker k a b (List.mem_cons_of_mem _ member)

theorem Rel.replace (related : Rel W t u) (distinct : t.keys.Nodup) (member : (key, a) ∈ t) (here : W' key a b)
    (others : ∀ k c d, k ≠ key → W k c d → W' k c d) : Rel W' t (u.set key b) := by
  induction related with
  | nil => cases member
  | @cons e f _ _ head rest ih =>
    obtain ⟨k, c⟩ := e
    obtain ⟨l, d⟩ := f
    obtain ⟨rfl, value⟩ := head
    obtain ⟨fresh, distinct⟩ := List.nodup_cons.1 distinct
    by_cases same : k = key
    · subst same
      have found : c = a := by
        rcases List.mem_cons.1 member with found | later
        · exact (Prod.mk.inj found).2.symm
        · exact absurd (mem_keys_of_mem later) fresh
      rw [Table.set, if_pos rfl]
      refine .cons ⟨rfl, found ▸ here⟩ (Rel.weaken_mem rest fun k' _ _ below => others k' _ _ ?_)
      intro same
      exact fresh (same ▸ below)
    · rw [Table.set, if_neg same]
      refine .cons ⟨rfl, others k c d same value⟩ (ih distinct ?_)
      rcases List.mem_cons.1 member with found | later
      · exact absurd (Prod.mk.inj found).1.symm same
      · exact later

end Table

-- Places that were taken for what was met, which has the latest first. Those that are
-- still being written are empty, and any other one holds something that goes with it.
structure Taken (V : String → α → β → Prop) (writing : List String) (met : Table α) (slots : Table (Option β)) : Prop where
  filled : Table.Rel (fun name a slot => if name ∈ writing then slot = none else ∃ b, slot = some b ∧ V name a b)
    met.reverse slots
  distinct : met.keys.Nodup
  begun : writing ⊆ met.keys

namespace Taken
variable {V V' : String → α → β → Prop} {writing : List String} {met : Table α} {slots : Table (Option β)}

theorem nothing : Taken V [] [] [] := ⟨.nil, List.nodup_nil, List.nil_subset _⟩

theorem weaken (taken : Taken V writing met slots) (weaker : ∀ name a b, V name a b → V' name a b) :
    Taken V' writing met slots := by
  refine ⟨taken.filled.weaken fun name a slot holds => ?_, taken.distinct, taken.begun⟩
  by_cases busy : name ∈ writing
  · rw [if_pos busy] at holds ⊢
    exact holds
  · rw [if_neg busy] at holds ⊢
    obtain ⟨b, here, goes⟩ := holds
    exact ⟨b, here, weaker name a b goes⟩

theorem keys (taken : Taken V writing met slots) : slots.keys = met.keys.reverse := by
  rw [← taken.filled.keys, Table.keys_reverse]

theorem has_iff (taken : Taken V writing met slots) : name ∈ writing ∨ slots.has name ↔ name ∈ met.keys := by
  have known : slots.has name ↔ name ∈ met.keys := by
    unfold Table.has
    rw [Option.isSome_iff_exists, ← Table.mem_keys_iff, taken.keys, List.mem_reverse]
  rw [known, or_iff_right_iff_imp]
  exact fun busy => taken.begun busy

theorem start (taken : Taken V writing met slots) (fresh : name ∉ met.keys) (a : α) :
    Taken V (name :: writing) ((name, a) :: met) (slots.set name none) := by
  refine ⟨?_, List.nodup_cons.2 ⟨fresh, taken.distinct⟩, List.cons_subset_cons _ taken.begun⟩
  rw [List.reverse_cons, Table.set_fresh (by rwa [taken.keys, List.mem_reverse])]
  have before : Table.Rel (fun other c slot => if other ∈ name :: writing then slot = none else
      ∃ b, slot = some b ∧ V other c b) met.reverse slots := by
    refine taken.filled.weaken_mem fun other c slot member holds => ?_
    have apart : other ≠ name := by
      intro same
      rw [same, Table.keys_reverse, List.mem_reverse] at member
      exact fresh member
    simpa [apart] using holds
  refine List.rel_append before (.cons ⟨rfl, ?_⟩ .nil)
  simp

theorem finish (taken : Taken V (name :: writing) met slots) (member : (name, a) ∈ met) (fresh : name ∉ writing)
    (goes : V name a b) : Taken V writing met (slots.set name (some b)) := by
  refine ⟨?_, taken.distinct, fun other busy => taken.begun (List.mem_cons_of_mem _ busy)⟩
  refine taken.filled.replace ?_ (List.mem_reverse.2 member) ?_ fun other c slot apart holds => ?_
  · rw [Table.keys_reverse]
    exact List.nodup_reverse.2 taken.distinct
  · rw [if_neg fresh]
    exact ⟨b, rfl, goes⟩
  · simpa [apart] using holds

theorem settled (taken : Taken V [] met slots) :
    ∃ contents : Table β, slots = contents.map (fun entry => (entry.1, some entry.2)) ∧ Table.Rel V met.reverse contents := by
  have filled := taken.filled
  clear taken
  generalize met.reverse = earliest at filled
  induction filled with
  | nil => exact ⟨[], rfl, .nil⟩
  | @cons e f _ _ head rest ih =>
    obtain ⟨contents, rfl, related⟩ := ih
    obtain ⟨key, slot⟩ := f
    obtain ⟨rfl, holds⟩ := head
    rw [if_neg List.not_mem_nil] at holds
    obtain ⟨b, rfl, goes⟩ := holds
    exact ⟨(e.1, b) :: contents, rfl, .cons ⟨rfl, goes⟩ related⟩

theorem get? (taken : Taken V [] met slots) (name : String) :
    Option.Rel (fun a slot => ∃ b, slot = some b ∧ V name a b) (met.get? name) (slots.get? name) := by
  have related := taken.filled.get? name
  rw [Table.get?_reverse taken.distinct] at related
  simpa only [List.not_mem_nil, if_false] using related

end Taken

-- How a walk over definitions advances: it visits items in order, each with all that it
-- leads to, and what it has met grows.
structure Walk (σ ℓ ι : Type) where
  goes : List ι → ℓ → σ → ℓ → σ → Prop
  le : ℓ → ℓ → Prop
  stay : goes [] l s l s
  onward : goes is l s l' s' → goes js l' s' l'' s'' → goes (is ++ js) l s l'' s''
  grows : goes is l s l' s' → le l l'

def Walk.Follows (w : Walk σ ℓ ι) (held : ℓ → σ → Prop) (items : List ι) (P : ℓ → α → Prop)
    (x : Inquiry σ ε α) : Prop :=
  ∀ l s a s', held l s → x s = (.ok a, s') → ∃ l', w.goes items l s l' s' ∧ held l' s' ∧ P l' a

def Walk.Lasts (w : Walk σ ℓ ι) (P : ℓ → Prop) : Prop := ∀ l l', w.le l l' → P l → P l'

namespace Walk.Follows
variable {w : Walk σ ℓ ι} {held : ℓ → σ → Prop} {is js : List ι} {P : ℓ → α → Prop} {Q : ℓ → β → Prop}

theorem pure {a : α} (holds : ∀ l, P l a) : w.Follows held [] P (Pure.pure a : Inquiry σ ε α) := by
  intro l s b s' kept done
  cases done
  exact ⟨l, w.stay, kept, holds l⟩

theorem fail {e : ε} : w.Follows held is P (Inquiry.fail e : Inquiry σ ε α) := by
  intro l s a s' kept done
  cases done

theorem bind {x : Inquiry σ ε α} {f : α → Inquiry σ ε β} (first : w.Follows held is P x)
    (lasts : ∀ a, w.Lasts (P · a)) (next : ∀ a, w.Follows held js (fun l b => P l a → Q l b) (f a)) :
    w.Follows held (is ++ js) Q (x >>= f) := by
  intro l s b s' kept done
  obtain ⟨a, t, ran, done⟩ := Inquiry.of_bind_ok done
  obtain ⟨l', walk, kept, here⟩ := first l s a t kept ran
  obtain ⟨l'', walk', kept, there⟩ := next a l' t b s' kept done
  exact ⟨l'', w.onward walk walk', kept, there (lasts a l' l'' (w.grows walk') here)⟩

theorem weaken {P' : ℓ → α → Prop} {x : Inquiry σ ε α} (follows : w.Follows held is P x)
    (weaker : ∀ l a, P l a → P' l a) : w.Follows held is P' x := by
  intro l s a s' kept done
  obtain ⟨l', walk, kept, here⟩ := follows l s a s' kept done
  exact ⟨l', walk, kept, weaker l' a here⟩

theorem bind_pure {x : Inquiry σ ε α} {f : α → β} (first : w.Follows held is P x)
    (next : ∀ l a, P l a → Q l (f a)) : w.Follows held is Q (x >>= fun a => Pure.pure (f a)) := by
  intro l s b s' kept done
  obtain ⟨a, t, ran, done⟩ := Inquiry.of_bind_ok done
  cases done
  obtain ⟨l', walk, kept, here⟩ := first l s a s' kept ran
  exact ⟨l', walk, kept, next l' a here⟩

end Walk.Follows
end TwinShape
