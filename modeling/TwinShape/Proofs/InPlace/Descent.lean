import TwinShape.Proofs.Agreement

namespace TwinShape

-- A computation that gives up where it would have to go deeper than allowed.
def Descent (σ β : Type) : Type := σ → Option (β × σ)

def Attempt (σ ε α : Type) : Type := Descent σ (Except ε α)

namespace Descent
variable {σ τ ε α β γ : Type}

def told (b : β) : Descent σ β := fun s => some (b, s)

def giveUp : Descent σ β := fun _ => none

def andThen (x : Descent σ β) (f : β → Descent σ γ) : Descent σ γ := fun s =>
  match x s with
  | none => none
  | some (b, s) => f b s

def within (part : τ → σ) (put : τ → σ → τ) (x : Descent σ β) : Descent τ β := fun t =>
  (x (part t)).map fun (b, s) => (b, put t s)

theorem andThen_of {x : Descent σ β} {f : β → Descent σ γ} {s s' : σ} (reached : x s = some (b, s')) :
    x.andThen f s = f b s' := by
  unfold andThen
  rw [reached]

end Descent

namespace Attempt
variable {σ ε α β : Type}

protected def bind (x : Attempt σ ε α) (f : α → Attempt σ ε β) : Attempt σ ε β :=
  Descent.andThen x fun
    | .error e => Descent.told (.error e)
    | .ok a => f a

instance : Monad (Attempt σ ε) where
  pure a := Descent.told (.ok a)
  bind := Attempt.bind

def fail (e : ε) : Attempt σ ε α := Descent.told (.error e)

def read : Attempt σ ε σ := fun s => some (.ok s, s)

def learn (change : σ → σ) : Attempt σ ε Unit := fun s => some (.ok (), change s)

def ask (part : τ → σ) (put : τ → σ → τ) (q : Inquiry σ ε α) : Attempt τ ε α := fun t =>
  some ((q (part t)).1, put t (q (part t)).2)

def ofTotal (x : Descent σ α) : Attempt σ ε α := Descent.andThen x fun a => Descent.told (.ok a)

end Attempt

-- A descent that gets to its end, tells what a computation tells, and keeps its books in step.
def Mirrors (S : τ → σ → Prop) (f : τ → β × τ) (g : Descent σ β) : Prop :=
  ∀ t s, S t s → ∃ s', g s = some ((f t).1, s') ∧ S (f t).2 s'

namespace Mirrors
variable {S : τ → σ → Prop}

theorem told (b : β) : Mirrors S (fun t => (b, t)) (Descent.told b) := fun _ s held => ⟨s, rfl, held⟩

theorem andThen {f : τ → β × τ} {g : Descent σ β} {f' : β → τ → γ × τ} {g' : β → Descent σ γ} (first : Mirrors S f g)
    (next : ∀ b, Mirrors S (f' b) (g' b)) : Mirrors S (fun t => f' (f t).1 (f t).2) (g.andThen g') := by
  intro t s held
  obtain ⟨s', reached, held'⟩ := first t s held
  obtain ⟨s'', reached', held''⟩ := next (f t).1 (f t).2 s' held'
  exact ⟨s'', (Descent.andThen_of reached).trans reached', held''⟩

theorem follow {f : τ → β × τ} {g : Descent σ β} {h : τ → γ × τ} {g' : β → Descent σ γ} (first : Mirrors S f g)
    (next : ∀ t b u s, f t = (b, u) → S u s → ∃ s', g' b s = some ((h t).1, s') ∧ S (h t).2 s') : Mirrors S h (g.andThen g') := by
  intro t s held
  obtain ⟨s', reached, held'⟩ := first t s held
  obtain ⟨s'', reached', held''⟩ := next t (f t).1 (f t).2 s' rfl held'
  exact ⟨s'', (Descent.andThen_of reached).trans reached', held''⟩

theorem pure (a : α) : Mirrors S (Pure.pure a : Inquiry τ ε α) (Pure.pure a : Attempt σ ε α) :=
  fun _ s held => ⟨s, rfl, held⟩

theorem fail (e : ε) : Mirrors S (Inquiry.fail e : Inquiry τ ε α) (Attempt.fail e : Attempt σ ε α) :=
  fun _ s held => ⟨s, rfl, held⟩

theorem bind {x : Inquiry τ ε α} {y : Attempt σ ε α} {f : α → Inquiry τ ε β} {g : α → Attempt σ ε β}
    (first : Mirrors S x y) (next : ∀ a, Mirrors S (f a) (g a)) : Mirrors S (x >>= f) (y >>= g : Attempt σ ε β) := by
  intro t s held
  obtain ⟨s', reached, held'⟩ := first t s held
  change ∃ s', Attempt.bind y g s = some ((Inquiry.bind x f t).1, s') ∧ S (Inquiry.bind x f t).2 s'
  unfold Attempt.bind Descent.andThen Inquiry.bind
  rw [reached]
  revert held'
  rcases x t with ⟨e | a, t'⟩ <;> intro held'
  · exact ⟨s', rfl, held'⟩
  · exact next a t' s' held'

theorem inspect {f : τ → Inquiry τ ε α} {g : σ → Attempt σ ε α} (next : ∀ t s, S t s → Mirrors S (f t) (g s)) :
    Mirrors S (Inquiry.read >>= f) (Attempt.read >>= g : Attempt σ ε α) :=
  fun t s held => next t s held t s held

theorem ofTotal {f : τ → α × τ} {g : Descent σ α} (both : Mirrors S f g) :
    Mirrors S (Inquiry.ofTotal f : Inquiry τ ε α) (Attempt.ofTotal g) := by
  intro t s held
  obtain ⟨s', reached, held'⟩ := both t s held
  refine ⟨s', ?_, held'⟩
  unfold Attempt.ofTotal Descent.andThen
  rw [reached]
  rfl

end Mirrors
end TwinShape
