import TwinShape.Proofs.Projection.Runs

namespace TwinShape

def flattenParents (r : Registry) (v : Variant) (scope : Scope) : List Node → Probe (List (ObjectShape Node))
  | [] => pure []
  | n :: rest => do
    let parent ← projectParent r v scope n
    let rest ← flattenParents r v scope rest
    pure (parent.toList ++ rest)

def contributions (flattened : List (ObjectShape Node)) : List (Property Node) := flattened.flatMap (·.properties)

-- A parent is projected itself, or as the definition that it names.
inductive ParentProjects (r : Registry) (v : Variant) (s : Scope) (p out : Node) (t t' : Trail) : Prop
  | inline_ (unnamed : p.referenceName? = none) (ran : projectNode r v s p t = (.ok (some out), t'))
  | named (name : p.shape = .reference target) (found : r.find? target = some n)
      (ran : projectNode r v { s with definition := target, chain := target :: s.chain } n t = (.ok (some out), t'))

-- A parent gives a property of some name, and so does one before it, but not the same.
inductive ParentsClash (r : Registry) (v : Variant) (s : Scope) (parents : List Node) (property : String) (t' : Trail) : Prop
  | intro (split : parents = before ++ p :: after) (flattens : flattenParents r v s before t = (.ok flattened, t₁))
      (projects : projectParent r v s p t₁ = (.ok (some o), t')) (earlier : q ∈ contributions flattened) (later : q' ∈ o.properties)
      (name : q.name = property) (name' : q'.name = property) (differ : q.same q' = false)

def Merge.From (m : Merge) (origin : Nat) (earlier current : List (Property Node)) : Prop :=
  ∀ name e, m.get? name = some e →
    e.1.name = name ∧ ((∃ i, e.2 = some i ∧ i < origin) ∧ e.1 ∈ earlier ∨ e.2 = some origin ∧ e.1 ∈ current)

namespace Merge.From
variable {m : Merge} {origin : Nat} {earlier current : List (Property Node)}

theorem nil (current : List (Property Node)) : Merge.From [] 0 earlier current := nofun

theorem set (from_ : m.From origin earlier current) (given : p ∈ current) :
    Merge.From (m.set p.name (p, some origin)) origin earlier current := by
  intro name e entry
  rw [Table.get?_set] at entry
  split at entry
  · rename_i same
    cases entry
    exact ⟨same.symm, .inr ⟨rfl, given⟩⟩
  · exact from_ name e entry

theorem next (from_ : m.From origin earlier current) (later : List (Property Node)) :
    m.From (origin + 1) (earlier ++ current) later := by
  intro name e entry
  obtain ⟨named, ⟨⟨i, origin', before⟩, given⟩ | ⟨origin', given⟩⟩ := from_ name e entry
  · exact ⟨named, .inl ⟨⟨i, origin', Nat.lt_succ_of_lt before⟩, List.mem_append_left _ given⟩⟩
  · exact ⟨named, .inl ⟨⟨origin, origin', Nat.lt_succ_self origin⟩, List.mem_append_right _ given⟩⟩

theorem inherit (from_ : m.From origin earlier current) {qs : List (Property Node)} (given : ∀ q ∈ qs, q ∈ current) :
    match m.inherit origin qs with
    | .error name => ∃ q ∈ earlier, ∃ q' ∈ current, q.name = name ∧ q'.name = name ∧ q.same q' = false
    | .ok after => after.From origin earlier current := by
  induction qs generalizing m with
  | nil => exact from_
  | cons q rest ih =>
    have given' := fun p member => given p (List.mem_cons_of_mem q member)
    have set := from_.set (given q List.mem_cons_self)
    unfold Merge.inherit
    cases found : m.get? q.name with
    | none => exact ih set given'
    | some e =>
      obtain ⟨existing, origin'⟩ := e
      dsimp only
      by_cases this : origin' = some origin
      · rw [if_pos this]
        exact ih set given'
      · rw [if_neg this]
        obtain ⟨named, ⟨-, inside⟩ | ⟨now, -⟩⟩ := from_ q.name _ found
        · cases same : existing.same q with
          | true => exact ih from_ given'
          | false => exact ⟨existing, inside, q, given q List.mem_cons_self, named, rfl, same⟩
        · exact absurd now this

end Merge.From

section
variable {r : Registry} {v : Variant} {s : Scope} {t t₁ t₂ : Trail}

theorem flattenParents_concat {ms : List Node} {flattened : List (ObjectShape Node)}
    (before : flattenParents r v s ms t = (.ok flattened, t₁)) (last : projectParent r v s n t₁ = (.ok parent, t₂)) :
    flattenParents r v s (ms ++ [n]) t = (.ok (flattened ++ parent.toList), t₂) := by
  induction ms generalizing t flattened with
  | nil =>
    cases before
    rw [List.nil_append, flattenParents, Inquiry.bind_ok last]
    rw [flattenParents]
    change (Except.ok (parent.toList ++ []), t₂) = _
    rw [List.append_nil, List.nil_append]
  | cons first rest ih =>
    rw [flattenParents] at before
    obtain ⟨o, t₃, came, before⟩ := Inquiry.of_bind_ok before
    obtain ⟨others, t₄, came', before⟩ := Inquiry.of_bind_ok before
    cases before
    rw [List.cons_append, flattenParents, Inquiry.bind_ok came, Inquiry.bind_ok (ih came'), List.append_assoc]
    rfl

theorem contributions_concat (flattened : List (ObjectShape Node)) (o : ObjectShape Node) :
    contributions (flattened ++ [o]) = contributions flattened ++ o.properties := by
  unfold contributions
  rw [List.flatMap_append, List.flatMap_singleton]

end
end TwinShape
