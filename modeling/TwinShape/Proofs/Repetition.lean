import TwinShape.Proofs.Agreement

namespace TwinShape

def Inquiry.Repeats (S : σ → σ → Prop) (fault : ε → Prop) (P : α → Prop) (x : Inquiry σ ε α) : Prop :=
  ∀ s t, S s t → (x s).1 = (x t).1 ∧ S (x s).2 (x t).2 ∧ match (x s).1 with
    | .error e => fault e
    | .ok a => P a

-- An inquiry that keeps something true, and that ends with an answer or a fault of some kind.
abbrev Inquiry.Ends (J : σ → Prop) (fault : ε → Prop) (P : α → Prop) (x : Inquiry σ ε α) : Prop :=
  Inquiry.Repeats (fun s t => s = t ∧ J s) fault P x

namespace Inquiry
variable {S : σ → σ → Prop} {J : σ → Prop} {fault fault' : ε → Prop} {P Q : α → Prop} {R : β → Prop}

namespace Repeats

theorem pure {a : α} (holds : P a) : Repeats S fault P (Pure.pure a : Inquiry σ ε α) :=
  fun _ _ seen => ⟨rfl, seen, holds⟩

theorem fail {e : ε} (allowed : fault e) : Repeats S fault P (Inquiry.fail e : Inquiry σ ε α) :=
  fun _ _ seen => ⟨rfl, seen, allowed⟩

theorem bind {x : Inquiry σ ε α} {f : α → Inquiry σ ε β} (first : Repeats S fault P x)
    (next : ∀ a, P a → Repeats S fault R (f a)) : Repeats S fault R (x >>= f) := by
  intro s t seen
  have ⟨same, after, ended⟩ := first s t seen
  change (Inquiry.bind x f s).1 = (Inquiry.bind x f t).1 ∧ S (Inquiry.bind x f s).2 (Inquiry.bind x f t).2 ∧
    match (Inquiry.bind x f s).1 with
    | .error e => fault e
    | .ok b => R b
  unfold Inquiry.bind
  revert same after ended
  rcases x s with ⟨e | a, s'⟩ <;> rcases x t with ⟨e' | a', t'⟩ <;> intro same after ended
  · exact ⟨congrArg Except.error (Except.error.inj same), after, ended⟩
  · cases same
  · cases same
  · cases same
    exact next a ended s' t' after

theorem weaken {x : Inquiry σ ε α} (repeats : Repeats S fault P x) (faults : ∀ e, fault e → fault' e)
    (answers : ∀ a, P a → Q a) : Repeats S fault' Q x := by
  intro s t seen
  have ⟨same, after, ended⟩ := repeats s t seen
  refine ⟨same, after, ?_⟩
  revert ended
  rcases (x s).1 with e | a
  · exact faults e
  · exact answers a

theorem learn {change : σ → σ} (related : ∀ s t, S s t → S (change s) (change t)) :
    Repeats S fault (fun _ => True) (Inquiry.learn change) := fun s t seen => ⟨rfl, related s t seen, trivial⟩

theorem within {part : τ → σ} {put : τ → σ → τ} {T : τ → τ → Prop} {x : Inquiry σ ε α} (repeats : Repeats S fault P x)
    (inward : ∀ t u, T t u → S (part t) (part u)) (outward : ∀ t u s s', T t u → S s s' → T (put t s) (put u s')) :
    Repeats T fault P (Inquiry.within part put x) := by
  intro t u seen
  have ⟨same, after, ended⟩ := repeats _ _ (inward t u seen)
  exact ⟨same, outward t u _ _ seen after, ended⟩

theorem inspect {f : σ → Inquiry σ ε α} (same : ∀ s t, S s t → f s = f t) (next : ∀ s, Repeats S fault P (f s)) :
    Repeats S fault P (Inquiry.read >>= f) := by
  intro s t seen
  have repeats := next s s t seen
  change (f s s).1 = (f t t).1 ∧ S (f s s).2 (f t t).2 ∧ _
  rw [← same s t seen]
  exact repeats

end Repeats

theorem Ends.intro {x : Inquiry σ ε α} (ends : ∀ s, J s → J (x s).2 ∧ match (x s).1 with
    | .error e => fault e
    | .ok a => P a) : Ends J fault P x := by
  rintro s _ ⟨rfl, held⟩
  exact ⟨rfl, ⟨rfl, (ends s held).1⟩, (ends s held).2⟩

theorem Ends.elim {x : Inquiry σ ε α} (ends : Ends J fault P x) {s : σ} (held : J s) :
    J (x s).2 ∧ match (x s).1 with
      | .error e => fault e
      | .ok a => P a :=
  ⟨(ends s s ⟨rfl, held⟩).2.1.2, (ends s s ⟨rfl, held⟩).2.2⟩

end Inquiry

def Matching (S : σ → τ → Prop) (f : σ → β × σ) (g : τ → β × τ) : Prop :=
  ∀ s t, S s t → (f s).1 = (g t).1 ∧ S (f s).2 (g t).2

theorem Matching.andThen {S : σ → τ → Prop} {f : σ → β × σ} {f' : τ → β × τ} {g : β → σ → γ × σ} {g' : β → τ → γ × τ}
    (first : Matching S f f') (next : ∀ b, Matching S (g b) (g' b)) :
    Matching S (fun s => g (f s).1 (f s).2) fun t => g' (f' t).1 (f' t).2 := by
  intro s t seen
  have ⟨same, after⟩ := first s t seen
  dsimp only
  rw [same]
  exact next _ _ _ after

def Consistent (S : σ → σ → Prop) (f : σ → β × σ) : Prop :=
  ∀ s t, S s t → (f s).1 = (f t).1 ∧ S (f s).2 (f t).2

namespace Consistent
variable {S : σ → σ → Prop} {J : σ → Prop}

theorem told (b : β) : Consistent S fun s => (b, s) := fun _ _ seen => ⟨rfl, seen⟩

theorem andThen {f : σ → β × σ} {g : β → σ → γ × σ} (first : Consistent S f) (next : ∀ b, Consistent S (g b)) :
    Consistent S fun s => g (f s).1 (f s).2 := Matching.andThen first next

theorem repeats {x : Inquiry σ ε α} (consistent : Consistent S x) :
    Inquiry.Repeats S (fun _ => True) (fun _ => True) x := by
  intro s t seen
  refine ⟨(consistent s t seen).1, (consistent s t seen).2, ?_⟩
  rcases (x s).1 <;> trivial

theorem of_repeats {fault : ε → Prop} {P : α → Prop} {x : Inquiry σ ε α} (repeats : Inquiry.Repeats S fault P x) :
    Consistent S x := fun s t seen => ⟨(repeats s t seen).1, (repeats s t seen).2.1⟩

theorem bind {x : Inquiry σ ε α} {f : α → Inquiry σ ε β} (first : Consistent S x) (next : ∀ a, Consistent S (f a)) :
    Consistent S (x >>= f) := of_repeats (first.repeats.bind fun a _ => (next a).repeats)

theorem ofTotal {f : σ → α × σ} (consistent : Consistent S f) : Consistent S (Inquiry.ofTotal f : Inquiry σ ε α) :=
  fun s t seen => ⟨congrArg Except.ok (consistent s t seen).1, (consistent s t seen).2⟩

theorem of_alongside {x : Inquiry σ ε α} (both : Alongside True S Eq x x) : Consistent S x :=
  fun s t seen => ⟨(both s t seen).answer trivial, (both s t seen).after trivial⟩

theorem of_kept {f : σ → β × σ} (kept : ∀ s, J s → J (f s).2) : Consistent (fun s t => s = t ∧ J s) f := by
  rintro s _ ⟨rfl, held⟩
  exact ⟨rfl, rfl, kept s held⟩

theorem kept {f : σ → β × σ} (consistent : Consistent (fun s t => s = t ∧ J s) f) {s : σ} (held : J s) : J (f s).2 :=
  (consistent s s ⟨rfl, held⟩).2.2

end Consistent
end TwinShape
