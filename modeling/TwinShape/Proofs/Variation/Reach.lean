import TwinShape.Proofs.Registry.Resolution
import TwinShape.Proofs.Variation.Survey

namespace TwinShape

-- A node that is restricted to one variant, or that has a property which is.
def Node.Restricted (n : Node) : Prop :=
  n.restriction.isRestricted ∨ ∃ o, n.shape = .object o ∧ ∃ p ∈ o.properties, p.restriction.isRestricted

theorem Node.restricted_iff (n : Node) :
    n.Restricted ↔ n.restriction.isRestricted ∨ ∃ p ∈ n.pieces, p.1.isRestricted := by
  refine or_congr_right ⟨?_, ?_⟩
  · rintro ⟨o, shape, p, member, restricted⟩
    refine ⟨(p.restriction, p.value), ?_, restricted⟩
    unfold Node.pieces
    rw [shape]
    exact List.mem_append_left _ (List.mem_map_of_mem member)
  · rintro ⟨⟨restriction, c⟩, inside, restricted⟩
    have free : ∀ nodes, (restriction, c) ∉ freePieces nodes := by
      intro nodes member
      obtain ⟨m, _, same⟩ := List.mem_map.1 member
      cases same
      cases restricted
    unfold Node.pieces Shape.pieces at inside
    split at inside
    · rename_i o shape
      rcases List.mem_append.1 inside with owned | further
      · obtain ⟨p, member, same⟩ := List.mem_map.1 owned
        cases same
        exact ⟨o, shape, p, member, restricted⟩
      · rcases List.mem_append.1 further with further | further
        · exact absurd further (free _)
        · exact absurd further (free _)
    · exact absurd inside (free _)

namespace Registry
variable {r : Registry}

-- What can be come to from a node, into its tree and along references, without entering
-- some definitions.
inductive ReachesPast (r : Registry) (avoid : List String) : Node → Node → Prop
  | here : ReachesPast r avoid n n
  | child (inside : c ∈ n.children) (further : ReachesPast r avoid c x) : ReachesPast r avoid n x
  | follow {name : String} (reference : n.shape = .reference name) (free : name ∉ avoid)
      (resolves : r.Resolves name m) (further : ReachesPast r avoid m x) : ReachesPast r avoid n x

def Reaches (r : Registry) (name : String) (x : Node) : Prop :=
  ∃ n, r.Resolves name n ∧ r.ReachesPast [] n x

theorem ReachesPast.fewer {avoid avoid' : List String} (reach : r.ReachesPast avoid n x)
    (fewer : ∀ name ∈ avoid', name ∈ avoid) : r.ReachesPast avoid' n x := by
  induction reach with
  | here => exact .here
  | child inside _ ih => exact .child inside ih
  | follow reference free resolves _ ih => exact .follow reference (fun met => free (fewer _ met)) resolves ih

-- A way that enters a definition again may as well start there.
theorem ReachesPast.past {avoid : List String} (reach : r.ReachesPast avoid n x) (resolves : r.Resolves name target) :
    r.ReachesPast (name :: avoid) n x ∨ r.ReachesPast (name :: avoid) target x := by
  induction reach with
  | here => exact .inl .here
  | child inside _ ih => exact ih.imp_left (.child inside)
  | @follow _ m _ other reference free found _ ih =>
    by_cases same : other = name
    · subst same
      rw [found.unique resolves] at ih
      exact .inr (ih.elim id id)
    · refine ih.imp_left (.follow reference ?_ found)
      intro met
      rcases List.mem_cons.1 met with met | met
      · exact same met
      · exact free met

def Clean (r : Registry) (avoid : List String) (n : Node) : Prop :=
  ∀ x, r.ReachesPast avoid n x → ¬x.Restricted

theorem Clean.fewer {avoid avoid' : List String} (clean : r.Clean avoid n)
    (fewer : ∀ name ∈ avoid, name ∈ avoid') : r.Clean avoid' n :=
  fun x reach => clean x (reach.fewer fewer)

theorem Clean.child {avoid : List String} (clean : r.Clean avoid n) (inside : c ∈ n.children) : r.Clean avoid c :=
  fun x reach => clean x (.child inside reach)

theorem Clean.target (clean : r.Clean [] n) (reference : n.shape = .reference name) (resolves : r.Resolves name m) :
    r.Clean [] m :=
  fun x reach => clean x (.follow reference List.not_mem_nil resolves reach)

theorem Clean.again {avoid : List String} (clean : r.Clean (name :: avoid) n) (resolves : r.Resolves name n) :
    r.Clean avoid n :=
  fun x reach => (reach.past resolves).elim (clean x) (clean x)

theorem clean_of_pieces {avoid : List String} {n : Node} (free : n.restriction.isRestricted = false)
    (inner : ∀ name, n.shape ≠ .reference name)
    (pieces : ∀ p ∈ n.pieces, p.1.isRestricted = false ∧ r.Clean avoid p.2) : r.Clean avoid n := by
  intro x reach
  cases reach with
  | here =>
    intro restricted
    rcases n.restricted_iff.1 restricted with here | ⟨p, inside, here⟩
    · exact absurd here (ne_true_of_eq_false free)
    · exact absurd here (ne_true_of_eq_false (pieces p inside).1)
  | child inside further =>
    obtain ⟨p, piece, rfl⟩ := Node.exists_piece inside
    exact (pieces p piece).2 x further
  | follow reference => exact absurd reference (inner _)

theorem clean_of_reference {avoid : List String} {n : Node} (free : n.restriction.isRestricted = false)
    (reference : n.shape = .reference name)
    (target : name ∈ avoid ∨ ∀ m, r.Resolves name m → r.Clean avoid m) : r.Clean avoid n := by
  have bare : n.pieces = [] := by
    unfold Node.pieces
    rw [reference]
    rfl
  intro x reach
  cases reach with
  | here =>
    intro restricted
    rcases n.restricted_iff.1 restricted with here | ⟨p, inside, _⟩
    · exact absurd here (ne_true_of_eq_false free)
    · rw [bare] at inside
      cases inside
  | child inside further =>
    obtain ⟨p, inside, _⟩ := Node.exists_piece inside
    rw [bare] at inside
    cases inside
  | follow reference' free' resolves further =>
    cases reference.symm.trans reference'
    exact (target.resolve_left free') _ resolves x further

-- What can be said of the two projections of a node rests on this.
theorem Clean.restriction {avoid : List String} (clean : r.Clean avoid n) : n.restriction = .unrestricted := by
  cases restricted : n.restriction with
  | unrestricted => rfl
  | only v => exact absurd (.inl (by rw [restricted]; rfl)) (clean n .here)

theorem Clean.property {avoid : List String} (clean : r.Clean avoid n) (shape : n.shape = .object o)
    (member : p ∈ o.properties) : p.restriction = .unrestricted := by
  cases restricted : p.restriction with
  | unrestricted => rfl
  | only v => exact absurd (.inr ⟨o, shape, p, member, by rw [restricted]; rfl⟩) (clean n .here)

end Registry
end TwinShape
