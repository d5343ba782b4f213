import TwinShape.Proofs.Projection.Cycles
import TwinShape.Schema.Evaluator

namespace TwinShape
namespace Registry

-- An object that survives in the first definition has a parent that names the second.
def Mentions (r : Registry) (v : Variant) (a b : String) : Prop := ∃ p, r.HasParent v a b p

-- A way from parent to parent that comes back for the first time at its end. The definitions
-- before `again` are not on the cycle.
structure Loops (r : Registry) (v : Variant) (chain outside : List String) (again : String) (around : List String) : Prop where
  split : chain = outside ++ again :: (around ++ [again])
  once : (outside ++ again :: around).Nodup
  linked : chain.IsChain (r.Mentions v)

-- What is being merged is a way from parent to parent that ends where faults are blamed on.
structure Climbs (r : Registry) (v : Variant) (s : Scope) : Prop where
  last : s.chain.head? = some s.definition
  once : s.chain.Nodup
  linked : s.chain.IsChain fun b a => r.Mentions v a b

namespace Climbs
variable {r : Registry} {v : Variant} {s : Scope}

theorem start (definition : String) (projecting : List String) : r.Climbs v (.start definition projecting) :=
  ⟨rfl, List.nodup_singleton definition, .singleton definition⟩

theorem linked_cons (climbs : r.Climbs v s) (mentions : r.Mentions v s.definition name) :
    (name :: s.chain).IsChain fun b a => r.Mentions v a b := by
  obtain ⟨below, chain⟩ := List.head?_eq_some_iff.1 climbs.last
  have linked := climbs.linked
  rw [chain] at linked ⊢
  exact .cons_cons mentions linked

theorem climb (climbs : r.Climbs v s) (mentions : r.Mentions v s.definition name) (fresh : name ∉ s.chain) :
    r.Climbs v { s with definition := name, chain := name :: s.chain } :=
  ⟨rfl, List.nodup_cons.2 ⟨fresh, climbs.once⟩, climbs.linked_cons mentions⟩

theorem entry (climbs : r.Climbs v s) (name : String) : (name :: s.chain).reverse.head? = some s.entry := by
  obtain ⟨below, chain⟩ := List.head?_eq_some_iff.1 climbs.last
  unfold Scope.entry
  rw [List.head?_reverse, chain, List.getLast?_cons, List.getLast?_cons, Option.getD_some, List.getLastD_cons, List.getLastD_eq_getLast?]

theorem close (climbs : r.Climbs v s) (mentions : r.Mentions v s.definition name) (visited : name ∈ s.chain) :
    ∃ outside around, r.Loops v (name :: s.chain).reverse outside name around := by
  obtain ⟨outside, around, parts⟩ := List.append_of_mem (List.mem_reverse.2 visited)
  refine ⟨outside, around, ?_, parts ▸ List.nodup_reverse.2 climbs.once, List.isChain_reverse.2 (climbs.linked_cons mentions)⟩
  rw [List.reverse_cons, parts, List.append_assoc, List.cons_append]

end Climbs

-- Nothing on the way to a cycle is on it.
theorem Loops.head_iff {r : Registry} {v : Variant} {chain outside around : List String} {again d : String}
    (loops : r.Loops v chain outside again around) (head : chain.head? = some d) : d ∈ again :: around ↔ outside = [] := by
  have split := loops.split
  cases outside with
  | nil =>
    subst split
    cases head
    exact iff_of_true List.mem_cons_self rfl
  | cons first rest =>
    subst split
    cases head
    refine iff_of_false (fun onCycle => ?_) (List.cons_ne_nil _ _)
    exact (List.nodup_append.1 loops.once).2.2 _ List.mem_cons_self _ onCycle rfl

-- Chains are climbed from the definition at which a projection starts, or a presence check does.
def chainBlame (r : Registry) (v : Variant) : Blame r v where
  here s n := (∃ root, r.find? s.definition = some root ∧ ∀ x : Node, x.Survives v n → x.Survives v root) ∧ r.Climbs v s
  fault e _ := ∀ d chain, e = .cyclicExtends d chain → chain.head? = some d ∧ ∃ outside again around, r.Loops v chain outside again around
  inside := by
    rintro s n c ⟨⟨root, found, above⟩, climbs⟩ inside child
    exact ⟨⟨root, found, fun x survives => above x (.under inside child survives)⟩, climbs⟩
  merged := by
    rintro s n o p name target ⟨⟨root, owner, above⟩, climbs⟩ inside shape listed _ named fresh found
    refine ⟨⟨target, found, fun _ => id⟩, climbs.climb ⟨p, root, n, o, owner, above n (.self inside), shape, listed, named⟩ fresh⟩
  decided _ _ _ found := ⟨⟨_, found, fun _ => id⟩, .start _ _⟩
  missing _ _ _ _ := nofun
  flawed _ _ := nofun
  circular := by
    rintro s n o p name _ ⟨⟨root, owner, above⟩, climbs⟩ inside shape listed named visited d chain same
    cases same
    have mentions : r.Mentions v s.definition name := ⟨p, root, n, o, owner, above n (.self inside), shape, listed, named⟩
    obtain ⟨outside, around, loops⟩ := climbs.close mentions visited
    exact ⟨climbs.entry name, outside, name, around, loops⟩
  collides _ _ _ _ := nofun
  foreign _ _ _ _ _ _ := nofun

-- A cycle that is complained about is one. But the definition that is named is the one that the chain
-- starts at, which is on the cycle only if nothing leads up to it.
theorem cyclicExtends_loops {r : Registry}
    (failed : (r.projectDefinition name v m).1 = .error (.cyclicExtends d chain)) :
    ∃ outside again around, r.Loops v chain outside again around ∧ chain.head? = some d ∧ (d ∈ again :: around ↔ outside = []) := by
  have fault := (r.chainBlame v).definition_owns (fun _ _ => nofun) (fun n found => ?_) failed d chain rfl
  · obtain ⟨head, outside, again, around, loops⟩ := fault
    exact ⟨outside, again, around, loops, head, loops.head_iff head⟩
  · exact ⟨⟨n, found, fun _ => id⟩, .start name []⟩

-- The cycle of `A` is entered from outside.
def leadingUp : Registry :=
  ⟨[⟨"A", .extending (.ofProperties []) (.referenceTo "A")⟩, ⟨"C", .extending (.ofProperties []) (.referenceTo "A")⟩], by decide, .builtIn⟩

theorem leadingUp_fails : (leadingUp.projectDefinition "C" .external .blank).1 = .error
    (.cyclicExtends "C" ["C", "A", "A"]) := by cbv

theorem leadingUp_loops : ∃ outside again around, leadingUp.Loops .external ["C", "A", "A"] outside again around ∧
    ("C" ∈ again :: around ↔ outside = []) := by
  obtain ⟨outside, again, around, loops, -, named⟩ := cyclicExtends_loops leadingUp_fails
  exact ⟨outside, again, around, loops, named⟩

theorem leadingUp_blames_other : ¬∀ (r : Registry) (name : String) (v : Variant) (m : Memory) (d : String)
    (chain : List String),
    (r.projectDefinition name v m).1 = .error (.cyclicExtends d chain) →
    ∃ outside again around, r.Loops v chain outside again around ∧ d ∈ again :: around := by
  intro named
  obtain ⟨outside, again, around, loops, onCycle⟩ := named leadingUp "C" .external .blank "C" _ leadingUp_fails
  have split := loops.split
  rw [(loops.head_iff rfl).1 onCycle, List.nil_append] at split
  have first : some "C" = some again := congrArg List.head? split
  have last : some "A" = some again := (congrArg List.getLast? split).trans (by rw [← List.cons_append, List.getLast?_concat])
  exact absurd (first.trans last.symm) (by decide)

end Registry
end TwinShape
