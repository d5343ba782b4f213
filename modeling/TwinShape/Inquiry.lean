namespace TwinShape

-- A computation that may fail, and that keeps what it has learned either way.
def Inquiry (σ ε α : Type) : Type := σ → Except ε α × σ

namespace Inquiry
variable {σ τ ε α β : Type}

protected def pure (a : α) : Inquiry σ ε α := fun s => (.ok a, s)

protected def bind (x : Inquiry σ ε α) (f : α → Inquiry σ ε β) : Inquiry σ ε β := fun s =>
  match x s with
  | (.ok a, s) => f a s
  | (.error e, s) => (.error e, s)

instance : Monad (Inquiry σ ε) where
  pure := Inquiry.pure
  bind := Inquiry.bind

def fail (e : ε) : Inquiry σ ε α := fun s => (.error e, s)

def read : Inquiry σ ε σ := fun s => (.ok s, s)

def learn (change : σ → σ) : Inquiry σ ε Unit := fun s => (.ok (), change s)

def ofTotal (x : σ → α × σ) : Inquiry σ ε α := fun s => (.ok (x s).1, (x s).2)

def within (part : τ → σ) (put : τ → σ → τ) (x : Inquiry σ ε α) : Inquiry τ ε α := fun t =>
  ((x (part t)).1, put t (x (part t)).2)

end Inquiry
end TwinShape
