import Mathlib.Data.List.Forall2
import TwinShape.Inquiry
import TwinShape.Table

namespace TwinShape

-- How two answers compare. Strictly, both are given or both fail alike; otherwise nothing
-- is said as soon as one of them fails.
def SameOutcome (strict : Prop) (P : α → β → Prop) : Except ε α → Except ε β → Prop
  | .ok a, .ok b => P a b
  | .error e, .error f => strict → e = f
  | _, _ => ¬strict

namespace SameOutcome
variable {strict : Prop} {P : α → β → Prop}

theorem error_left {e : ε} (loose : ¬strict) (y : Except ε β) :
    SameOutcome strict P (.error e) y := by
  cases y with
  | ok b => exact loose
  | error f => exact fun exact_ => absurd exact_ loose

theorem error_right {f : ε} (loose : ¬strict) (x : Except ε α) :
    SameOutcome strict P x (.error f) := by
  cases x with
  | ok a => exact loose
  | error e => exact fun exact_ => absurd exact_ loose

end SameOutcome

def Agrees (strict : Prop) (P : α → β → Prop) (S : σ → τ → Prop) :
    Except ε α × σ → Except ε β × τ → Prop
  | (.ok a, s), (.ok b, t) => P a b ∧ S s t
  | (.error e, s), (.error f, t) => strict → e = f ∧ S s t
  | _, _ => ¬strict

-- Two inquiries that agree whenever what is known before them is related.
def Alongside (strict : Prop) (S : σ → τ → Prop) (P : α → β → Prop)
    (x : Inquiry σ ε α) (y : Inquiry τ ε β) : Prop :=
  ∀ s t, S s t → Agrees strict P S (x s) (y t)

namespace Agrees
variable {strict : Prop} {P : α → β → Prop} {S : σ → τ → Prop}

theorem weaken {Q : α → β → Prop} {x : Except ε α × σ} {y : Except ε β × τ}
    (agree : Agrees strict P S x y) (weaker : ∀ a b, P a b → Q a b) : Agrees strict Q S x y := by
  obtain ⟨a | a, s⟩ := x <;> obtain ⟨b | b, t⟩ := y
  · exact agree
  · exact agree
  · exact agree
  · exact ⟨weaker _ _ agree.1, agree.2⟩

theorem after {x : Except ε α × σ} {y : Except ε β × τ} (agree : Agrees strict P S x y)
    (exact_ : strict) : S x.2 y.2 := by
  obtain ⟨a | a, s⟩ := x <;> obtain ⟨b | b, t⟩ := y
  · exact (agree exact_).2
  · exact absurd exact_ agree
  · exact absurd exact_ agree
  · exact agree.2

theorem answer {x : Except ε α × σ} {y : Except ε α × τ} (agree : Agrees strict Eq S x y)
    (exact_ : strict) : x.1 = y.1 := by
  obtain ⟨a | a, s⟩ := x <;> obtain ⟨b | b, t⟩ := y
  · exact congrArg Except.error (agree exact_).1
  · exact absurd exact_ agree
  · exact absurd exact_ agree
  · exact congrArg Except.ok agree.1

theorem of_answer {P : α → α → Prop} {x : Except ε α × σ} {y : Except ε α × τ} (same : x.1 = y.1)
    (after : S x.2 y.2) (self : ∀ a, P a a) : Agrees strict P S x y := by
  obtain ⟨a | a, s⟩ := x <;> obtain ⟨b | b, t⟩ := y
  · exact fun _ => ⟨Except.error.inj same, after⟩
  · cases same
  · cases same
  · cases same
    exact ⟨self a, after⟩

end Agrees

namespace Alongside
variable {strict : Prop} {S : σ → τ → Prop} {P : α → β → Prop} {Q : α' → β' → Prop}

theorem pure {a : α} {b : β} (related : P a b) :
    Alongside strict S P (Pure.pure a : Inquiry σ ε α) (Pure.pure b : Inquiry τ ε β) :=
  fun _ _ seen => ⟨related, seen⟩

theorem fail {e f : ε} (same : strict → e = f) :
    Alongside strict S P (Inquiry.fail e) (Inquiry.fail f) :=
  fun _ _ seen exact_ => ⟨same exact_, seen⟩

theorem bind {x : Inquiry σ ε α} {y : Inquiry τ ε β} {f : α → Inquiry σ ε α'}
    {g : β → Inquiry τ ε β'} (first : Alongside strict S P x y)
    (next : ∀ a b, P a b → Alongside strict S Q (f a) (g b)) :
    Alongside strict S Q (x >>= f) (y >>= g) := by
  intro s t seen
  have agree := first s t seen
  change Agrees strict Q S (Inquiry.bind x f s) (Inquiry.bind y g t)
  unfold Inquiry.bind
  rcases hx : x s with ⟨a | a, s'⟩ <;> rcases hy : y t with ⟨b | b, t'⟩ <;> rw [hx, hy] at agree
  · exact agree
  · dsimp only
    rcases g b t' with ⟨c | c, t''⟩
    · exact fun exact_ => absurd exact_ agree
    · exact agree
  · dsimp only
    rcases f a s' with ⟨c | c, s''⟩
    · exact fun exact_ => absurd exact_ agree
    · exact agree
  · exact next a b agree.1 s' t' agree.2

theorem weaken {P' : α → β → Prop} {x : Inquiry σ ε α} {y : Inquiry τ ε β}
    (both : Alongside strict S P x y) (weaker : ∀ a b, P a b → P' a b) :
    Alongside strict S P' x y :=
  fun s t seen => (both s t seen).weaken weaker

theorem skipLeft {x : Inquiry σ ε α} {a : α} {f : α → Inquiry σ ε α'} {y : Inquiry τ ε β'}
    (loose : ¬strict) (idle : ∀ s, x s = (.ok a, s) ∨ ∃ e s', x s = (.error e, s'))
    (next : Alongside strict S Q (f a) y) : Alongside strict S Q (x >>= f) y := by
  intro s t seen
  change Agrees strict Q S (Inquiry.bind x f s) (y t)
  unfold Inquiry.bind
  rcases idle s with same | ⟨e, s', failed⟩
  · rw [same]
    exact next s t seen
  · rw [failed]
    rcases y t with ⟨b | b, t'⟩
    · exact fun exact_ => absurd exact_ loose
    · exact loose

theorem skipRight {x : Inquiry σ ε α'} {y : Inquiry τ ε β} {b : β} {g : β → Inquiry τ ε β'}
    (loose : ¬strict) (idle : ∀ t, y t = (.ok b, t) ∨ ∃ e t', y t = (.error e, t'))
    (next : Alongside strict S Q x (g b)) : Alongside strict S Q x (y >>= g) := by
  intro s t seen
  change Agrees strict Q S (x s) (Inquiry.bind y g t)
  unfold Inquiry.bind
  rcases idle t with same | ⟨e, t', failed⟩
  · rw [same]
    exact next s t seen
  · rw [failed]
    rcases x s with ⟨a | a, s'⟩
    · exact fun exact_ => absurd exact_ loose
    · exact loose

theorem failLeft {e : ε} {y : Inquiry τ ε β} (loose : ¬strict) :
    Alongside strict S P (Inquiry.fail e) y := by
  intro s t seen
  change Agrees strict P S (.error e, s) (y t)
  rcases y t with ⟨b | b, t'⟩
  · exact fun exact_ => absurd exact_ loose
  · exact loose

theorem failRight {x : Inquiry σ ε α} {f : ε} (loose : ¬strict) :
    Alongside strict S P x (Inquiry.fail f) := by
  intro s t seen
  change Agrees strict P S (x s) (.error f, t)
  rcases x s with ⟨a | a, s'⟩
  · exact fun exact_ => absurd exact_ loose
  · exact loose

theorem idle {x : Inquiry σ ε α} {y : Inquiry τ ε β} {a : α} {b : β} (loose : ¬strict)
    (first : ∀ s, x s = (.ok a, s) ∨ ∃ e s', x s = (.error e, s'))
    (second : ∀ t, y t = (.ok b, t) ∨ ∃ e t', y t = (.error e, t')) (related : P a b) :
    Alongside strict S P x y := by
  intro s t seen
  rcases first s with same | ⟨e, s', failed⟩ <;> rcases second t with same' | ⟨e', t', failed'⟩
  · rw [same, same']
    exact ⟨related, seen⟩
  · rw [same, failed']
    exact loose
  · rw [failed, same']
    exact loose
  · rw [failed, failed']
    exact fun exact_ => absurd exact_ loose

end Alongside

theorem Inquiry.bind_pure (x : Inquiry σ ε α) : x >>= Pure.pure = x := by
  funext s
  change Inquiry.bind x _ s = x s
  unfold Inquiry.bind
  rcases x s with ⟨e | a, s'⟩ <;> rfl

theorem Inquiry.of_bind_ok {x : Inquiry σ ε α} {f : α → Inquiry σ ε β} {s t : σ} {b : β}
    (done : (x >>= f) s = (.ok b, t)) : ∃ a u, x s = (.ok a, u) ∧ f a u = (.ok b, t) := by
  change Inquiry.bind x f s = _ at done
  unfold Inquiry.bind at done
  rcases hx : x s with ⟨e | a, u⟩ <;> rw [hx] at done
  · cases done
  · exact ⟨a, u, rfl, done⟩

theorem Inquiry.bind_ok {x : Inquiry σ ε α} {f : α → Inquiry σ ε β} {s t : σ} {a : α}
    (first : x s = (.ok a, t)) : (x >>= f) s = f a t := by
  change Inquiry.bind x f s = _
  unfold Inquiry.bind
  rw [first]

theorem Inquiry.bind_error {x : Inquiry σ ε α} {f : α → Inquiry σ ε β} {s t : σ} {e : ε}
    (failed : x s = (.error e, t)) : (x >>= f) s = (.error e, t) := by
  change Inquiry.bind x f s = _
  unfold Inquiry.bind
  rw [failed]

-- An inquiry that keeps something true of what is known, whether or not it fails.
def Inquiry.Keeps (J : σ → Prop) (x : Inquiry σ ε α) : Prop := ∀ s, J s → J (x s).2

namespace Inquiry.Keeps
variable {J : σ → Prop}

theorem bind {x : Inquiry σ ε α} {f : α → Inquiry σ ε β} (first : Keeps J x)
    (next : ∀ a, Keeps J (f a)) : Keeps J (x >>= f) := by
  intro s held
  have after := first s held
  change J (Inquiry.bind x f s).2
  unfold Inquiry.bind
  rcases hx : x s with ⟨e | a, s'⟩ <;> rw [hx] at after
  · exact after
  · exact next a s' after

-- An inquiry alongside itself tells the same twice, and keeps what it kept.
theorem twice {x : Inquiry σ ε α} (kept : Keeps J x) :
    Alongside True (fun s t => s = t ∧ J s) Eq x x := by
  rintro s _ ⟨rfl, held⟩
  have after := kept s held
  revert after
  rcases x s with ⟨e | a, s'⟩ <;> intro after
  · exact fun _ => ⟨rfl, rfl, after⟩
  · exact ⟨rfl, rfl, after⟩

end Inquiry.Keeps

theorem forall₂_right {R : α → β → Prop} {as : List α} {bs : List β} (both : List.Forall₂ R as bs)
    (member : a ∈ as) : ∃ b ∈ bs, R a b := by
  induction both with
  | nil => cases member
  | cons head _ ih =>
    rcases List.mem_cons.1 member with rfl | member
    · exact ⟨_, List.mem_cons_self, head⟩
    · obtain ⟨b, inside, related⟩ := ih member
      exact ⟨b, List.mem_cons_of_mem _ inside, related⟩

theorem forall₂_left {R : α → β → Prop} {as : List α} {bs : List β} (both : List.Forall₂ R as bs)
    (member : b ∈ bs) : ∃ a ∈ as, R a b := forall₂_right both.flip member

namespace Table
variable {V : String → α → β → Prop} {t : Table α} {u : Table β}

def Rel (V : String → α → β → Prop) (t : Table α) (u : Table β) : Prop :=
  List.Forall₂ (fun e f => e.1 = f.1 ∧ V e.1 e.2 f.2) t u

theorem Rel.get? (related : Rel V t u) (key : String) :
    Option.Rel (V key) (t.get? key) (u.get? key) := by
  induction related with
  | nil => exact .none
  | @cons e f _ _ head _ ih =>
    obtain ⟨k, a⟩ := e
    obtain ⟨l, b⟩ := f
    obtain ⟨rfl, value⟩ := head
    rw [get?_cons, get?_cons]
    by_cases same : key = k
    · subst same
      simpa using Option.Rel.some value
    · simpa [same] using ih

theorem Rel.set (related : Rel V t u) {key : String} {a : α} {b : β} (value : V key a b) :
    Rel V (t.set key a) (u.set key b) := by
  induction related with
  | nil => exact .cons ⟨rfl, value⟩ .nil
  | @cons e f _ _ head rest ih =>
    obtain ⟨k, c⟩ := e
    obtain ⟨l, d⟩ := f
    obtain ⟨rfl, old⟩ := head
    by_cases same : k = key
    · subst same
      rw [Table.set, Table.set, if_pos rfl, if_pos rfl]
      exact .cons ⟨rfl, value⟩ rest
    · rw [Table.set, Table.set, if_neg same, if_neg same]
      exact .cons ⟨rfl, old⟩ ih

theorem Rel.weaken {W : String → α → β → Prop} (related : Rel V t u)
    (weaker : ∀ k a b, V k a b → W k a b) : Rel W t u :=
  List.Forall₂.imp (fun _ _ h => ⟨h.1, weaker _ _ _ h.2⟩) related

theorem mem_keys_iff {t : Table α} : key ∈ t.keys ↔ ∃ a, t.get? key = some a := by
  induction t with
  | nil => simp [keys]
  | cons entry rest ih =>
    obtain ⟨k, a⟩ := entry
    rw [get?_cons]
    by_cases same : key = k
    · simp [keys, same]
    · simpa [keys, same] using ih

theorem set_fresh {t : Table α} (fresh : key ∉ t.keys) (a : α) : t.set key a = t ++ [(key, a)] := by
  induction t with
  | nil => rfl
  | cons entry rest ih =>
    obtain ⟨k, b⟩ := entry
    have other : k ≠ key := fun same => fresh (same ▸ List.mem_cons_self)
    rw [set, if_neg other, ih fun member => fresh (List.mem_cons_of_mem _ member)]
    rfl

theorem nodup_keys_set (distinct : t.keys.Nodup) (key : String) (a : α) :
    (t.set key a).keys.Nodup := by
  by_cases known : key ∈ t.keys
  · rw [keys_set_of_mem known]
    exact distinct
  · rw [keys_set_of_not_mem known]
    refine List.nodup_append.2 ⟨distinct, by simp, ?_⟩
    intro k old l new same
    rw [List.mem_singleton.1 new] at same
    exact known (same ▸ old)

end Table
end TwinShape
