import Mathlib
import TwinShape.Node.Builder
import TwinShape.Proofs.Projection.Blame
import TwinShape.Schema.Evaluator

namespace TwinShape

open Relation (ReflTransGen TransGen)

-- A node survives in a tree if it exists in the variant, and so do all nodes and properties above it.
-- Whether something above it is dropped for want of another part is found out only afterwards.
inductive Node.Survives (v : Variant) (x : Node) : Node → Prop
  | self (inside : x.restriction.includes v) : Survives v x x
  | under (inside : n.restriction.includes v) (child : c ∈ n.shape.projectedNodes v) (inner : Survives v x c) : Survives v x n

theorem Node.Survives.includes {x n : Node} (survives : x.Survives v n) : x.restriction.includes v := by
  induction survives with
  | self inside => exact inside
  | under _ _ _ ih => exact ih

theorem Node.Survives.part {x n : Node} (survives : x.Survives v n) : x.Part n := by
  induction survives with
  | self => exact .self
  | under _ child _ ih => exact .inside (Shape.child_of_projected child) ih

def Registry.HasParent (r : Registry) (v : Variant) (a b : String) (p : Node) : Prop :=
  ∃ (n x : Node) (o : ObjectShape Node), r.find? a = some n ∧ x.Survives v n ∧ x.shape = .object o ∧ p ∈ o.parents ∧ p.shape = .reference b

def Registry.Extends (r : Registry) (v : Variant) (a b : String) : Prop :=
  ∃ p, r.HasParent v a b p ∧ p.restriction.includes v

-- A definition comes back to itself from parent to parent.
def Registry.Circles (r : Registry) (v : Variant) (a : String) : Prop := TransGen (r.Extends v) a a

-- It would, but for the last parent, which does not exist in the variant.
def Registry.Grazes (r : Registry) (v : Variant) (a : String) : Prop :=
  ∃ b p, ReflTransGen (r.Extends v) a b ∧ r.HasParent v b a p ∧ p.outside v

-- Projections into which a node is entered from the definition that is being merged, which has
-- been come to from every definition on the chain.
def Registry.cycleBlame (r : Registry) (v : Variant) : Blame r v where
  here s n := (∃ root, r.find? s.definition = some root ∧ ∀ x : Node, x.Survives v n → x.Survives v root) ∧
    ∀ a ∈ s.chain, ReflTransGen (r.Extends v) a s.definition
  fault e _ := ∀ d chain, e = .cyclicExtends d chain → ∃ a, r.Circles v a ∨ r.Grazes v a
  inside here inside child := by
    obtain ⟨⟨root, found, above⟩, chained⟩ := here
    exact ⟨⟨root, found, fun x survives => above x (.under inside child survives)⟩, chained⟩
  merged := by
    intro s n o p name target here inside shape listed kept named _ found
    obtain ⟨⟨root, owner, above⟩, chained⟩ := here
    refine ⟨⟨target, found, fun _ => id⟩, fun a onChain => ?_⟩
    have extends_ : r.Extends v s.definition name := ⟨p, ⟨root, n, o, owner, above n (.self inside), shape, listed, named⟩, kept⟩
    rcases List.mem_cons.1 onChain with rfl | before
    · exact .refl
    · exact (chained a before).tail extends_
  decided := by
    intro s n name target _ _ _ found
    refine ⟨⟨target, found, fun _ => id⟩, fun a onChain => ?_⟩
    cases List.mem_singleton.1 onChain
    exact .refl
  missing _ _ _ _ := nofun
  flawed _ _ := nofun
  circular := by
    intro s n o p name _ here inside shape listed named onChain _ _ _
    obtain ⟨⟨root, owner, above⟩, chained⟩ := here
    have parent : r.HasParent v s.definition name p := ⟨root, n, o, owner, above n (.self inside), shape, listed, named⟩
    refine ⟨name, ?_⟩
    by_cases kept : p.restriction.includes v = true
    · exact .inl (TransGen.tail' (chained name onChain) ⟨p, parent, kept⟩)
    · exact .inr ⟨s.definition, p, chained name onChain, parent, by simpa [Node.outside] using kept⟩
  collides _ _ _ _ := nofun
  foreign _ _ _ _ := nofun

def Inquiry.Fails (x : Inquiry σ ε α) : Prop := ∀ s, ∃ e t, x s = (.error e, t)

namespace Inquiry.Fails

theorem first {x : Inquiry σ ε α} (fails : x.Fails) (f : α → Inquiry σ ε β) : Inquiry.Fails (x >>= f) := by
  intro s
  obtain ⟨e, t, failed⟩ := fails s
  exact ⟨e, t, Inquiry.bind_error failed⟩

theorem next {x : Inquiry σ ε α} {f : α → Inquiry σ ε β} (fails : ∀ a, (f a).Fails) : Inquiry.Fails (x >>= f) := by
  intro s
  rcases came : x s with ⟨e | a, t⟩
  · exact ⟨e, t, Inquiry.bind_error came⟩
  · obtain ⟨e, u, failed⟩ := fails a t
    exact ⟨e, u, (Inquiry.bind_ok came).trans failed⟩

end Inquiry.Fails

section
variable {r : Registry} {v : Variant} {s : Scope}

theorem members_fail {ms : List Node} (listed : m ∈ ms) (fails : (projectNode r v s m).Fails) :
    (projectMembers r v s ms).Fails := by
  induction ms with
  | nil => cases listed
  | cons first rest ih =>
    rw [projectMembers]
    rcases List.mem_cons.1 listed with rfl | later
    · exact fails.first _
    · exact .next fun _ => (ih later).first _

theorem properties_fail {ps : List (Property Node)} (listed : p ∈ ps) (kept : p.restriction.includes v)
    (fails : (projectNode r v s p.value).Fails) : (projectProperties r v s ps).Fails := by
  induction ps with
  | nil => cases listed
  | cons first rest ih =>
    rcases List.mem_cons.1 listed with rfl | later
    · obtain ⟨name, value, restriction⟩ := p
      rw [projectProperties, if_pos kept]
      exact fails.first _
    · obtain ⟨name, value, restriction⟩ := first
      rw [projectProperties]
      split
      · exact .next fun _ => (ih later).first _
      · exact ih later

theorem parents_fail {ms : List Node} (listed : m ∈ ms) (fails : (projectParent r v s m).Fails) (origin : Nat)
    (merged : Merge) (additional : Additional Node) : (projectParents r v s origin merged additional ms).Fails := by
  induction ms generalizing origin merged additional with
  | nil => cases listed
  | cons first rest ih =>
    rw [projectParents]
    rcases List.mem_cons.1 listed with rfl | later
    · exact fails.first _
    · refine .next fun o => ?_
      cases o with
      | none => exact ih later _ _ _
      | some o =>
        dsimp only
        split
        · exact fun t => ⟨_, t, rfl⟩
        · exact ih later _ _ _

theorem node_fails {n : Node} (inside : n.restriction.includes v) (fails : (projectShape r v s n.shape).Fails) :
    (projectNode r v s n).Fails := by
  rw [projectNode_eq, if_pos inside]
  exact fails.first _

theorem parent_fails {n p : Node} {o : ObjectShape Node} (inside : n.restriction.includes v)
    (shape : n.shape = .object o)
    (listed : p ∈ o.parents) (fails : (projectParent r v s p).Fails) : (projectNode r v s n).Fails := by
  apply node_fails inside
  rw [shape, projectShape]
  exact (parents_fail listed fails 0 [] .forbidden).first _

theorem child_fails {n c : Node} (inside : n.restriction.includes v) (child : c ∈ n.shape.projectedNodes v)
    (fails : (projectNode r v s c).Fails) : (projectNode r v s n).Fails := by
  cases shape : n.shape with
  | object o =>
    rw [shape] at child
    rcases List.mem_append.1 child with inner | parent
    · apply node_fails inside
      rw [shape, projectShape]
      refine .next fun _ => ?_
      rcases List.mem_append.1 inner with value | further
      · obtain ⟨p, kept, rfl⟩ := List.mem_map.1 value
        obtain ⟨listed, kept⟩ := List.mem_filter.1 kept
        exact (properties_fail listed kept fails).first _
      · refine .next fun _ => ?_
        cases additional : o.additional with
        | shape only =>
          rw [additional] at further
          cases List.mem_singleton.1 further
          rw [projectAdditional]
          exact (fails.first _).first _
        | _ =>
          rw [additional] at further
          cases further
    · obtain ⟨listed, unnamed⟩ := List.mem_filter.1 parent
      apply parent_fails inside shape listed
      rw [projectParent_inline (Option.isNone_iff_eq_none.1 unnamed)]
      exact fails.first _
  | array item =>
    rw [shape] at child
    cases List.mem_singleton.1 child
    apply node_fails inside
    rw [shape, projectShape]
    exact fails.first _
  | union members =>
    rw [shape] at child
    apply node_fails inside
    rw [shape, projectShape]
    exact (members_fail child fails).first _
  | linked declaration schema =>
    rw [shape] at child
    apply node_fails inside
    rw [shape, projectShape]
    rcases List.mem_cons.1 child with rfl | other
    · exact fails.first _
    · cases List.mem_singleton.1 other
      exact .next fun _ => fails.first _
  | _ =>
    rw [shape] at child
    cases child

theorem survivor_fails {x n : Node} (survives : x.Survives v n) (fails : (projectNode r v s x).Fails) :
    (projectNode r v s n).Fails := by
  induction survives with
  | self => exact fails
  | under inside child _ ih => exact child_fails inside child ih

-- A name on the chain is come back to, sooner or later: each parent on the way to it is either
-- on the chain itself, or is merged with the name still on the chain.
theorem chain_fails (way : ReflTransGen (r.Extends v) a b) (back : r.HasParent v b name p) (onChain : name ∈ s.chain)
    (found : r.find? a = some n) : (projectNode r v s n).Fails := by
  induction way using ReflTransGen.head_induction_on generalizing s n with
  | refl =>
    obtain ⟨_, x, o, found', survives, shape, listed, named⟩ := back
    cases found.symm.trans found'
    apply survivor_fails survives
    apply parent_fails survives.includes shape listed
    rw [projectParent_named named, if_pos onChain]
    exact fun t => ⟨_, t, rfl⟩
  | @head a c step _ ih =>
    obtain ⟨q, ⟨_, x, o, found', survives, shape, listed, named⟩, kept⟩ := step
    cases found.symm.trans found'
    apply survivor_fails survives
    apply parent_fails survives.includes shape listed
    rw [projectParent_named named]
    by_cases visited : c ∈ s.chain
    · rw [if_pos visited]
      exact fun t => ⟨_, t, rfl⟩
    · rw [if_neg visited, if_pos kept]
      apply Inquiry.Fails.next
      rintro ⟨target, found⟩
      exact (ih (List.mem_cons_of_mem _ onChain) found).first _

end

namespace Registry
variable {r : Registry} {v : Variant}

theorem project_fails (way : ReflTransGen (r.Extends v) name b) (back : r.HasParent v b name p) :
    (r.projectDefinition name v).Fails := by
  apply Inquiry.Fails.next
  rintro ⟨n, found⟩ m
  have fails : (projectNode r v (.start name []) n).Fails := chain_fails way back List.mem_cons_self found
  obtain ⟨e, t, failed⟩ := fails ⟨m, false⟩
  dsimp only
  rw [project_eq]
  unfold Probe.alone
  rw [failed]
  exact ⟨e, t.memory, rfl⟩

-- A cycle is complained about only where there is one, or would be but for its last parent; and
-- no definition on such a cycle is projected, whatever was asked before.
theorem cyclicExtends_circles (r : Registry) (name : String) (v : Variant) (m : Memory) :
    (∀ d chain, (r.projectDefinition name v m).1 = .error (.cyclicExtends d chain) → ∃ a, r.Circles v a ∨ r.Grazes v a) ∧
      (r.Circles v name ∨ r.Grazes v name → ∃ fault, (r.projectDefinition name v m).1 = .error fault) := by
  refine ⟨fun d chain failed => ?_, fun around => ?_⟩
  · refine (r.cycleBlame v).definition_owns (fun _ => nofun) (fun n found => ?_) failed d chain rfl
    refine ⟨⟨n, found, fun _ => id⟩, fun a onChain => ?_⟩
    cases List.mem_singleton.1 onChain
    exact .refl
  · have back : ∃ b p, ReflTransGen (r.Extends v) name b ∧ r.HasParent v b name p := by
      rcases around with circles | ⟨b, p, way, parent, _⟩
      · obtain ⟨b, way, p, parent, _⟩ := TransGen.tail'_iff.1 circles
        exact ⟨b, p, way, parent⟩
      · exact ⟨b, p, way, parent⟩
    obtain ⟨b, p, way, parent⟩ := back
    obtain ⟨e, m', failed⟩ := project_fails way parent m
    exact ⟨e, congrArg Prod.fst failed⟩

-- `A` comes back to itself through `B`, in the external variant only, from an object inside of
-- its inline parent.
def entangled : Registry :=
  ⟨[⟨"A", .extending (.ofProperties [])
      (.ofProperties [.of "p" (.extending (.ofProperties []) (.onlyIn (.referenceTo "B") .external))])⟩,
    ⟨"B", .extending (.ofProperties []) (.referenceTo "A")⟩], by decide, .builtIn⟩

theorem entangled_circles : entangled.Circles .external "A" := by
  have first : entangled.Extends .external "A" "B" := by
    refine ⟨.onlyIn (.referenceTo "B") .external, ⟨_, .extending (.ofProperties []) (.onlyIn (.referenceTo "B") .external), _,
      rfl, ?_, rfl, List.mem_cons_self, rfl⟩, rfl⟩
    refine .under rfl (c := .ofProperties [_]) List.mem_cons_self ?_
    exact .under rfl List.mem_cons_self (.self rfl)
  have second : entangled.Extends .external "B" "A" :=
    ⟨.referenceTo "A", ⟨_, _, _, rfl, .self rfl, rfl, List.mem_cons_self, rfl⟩, rfl⟩
  exact .tail (.single first) second

theorem entangled_fails : entangled.Circles .external "A" ∧
    (∃ fault, (entangled.projectDefinition "A" .external .blank).1 = .error fault) ∧
    (entangled.projectDefinition "A" .internal .blank).1.isOk := by
  refine ⟨entangled_circles, ?_, by cbv⟩
  exact (cyclicExtends_circles entangled "A" .external .blank).2 (.inl entangled_circles)

-- `A` extends itself in the internal variant only.
def grazing : Registry := ⟨[⟨"A", .extending (.ofProperties []) (.onlyIn (.referenceTo "A") .internal)⟩], by decide, .builtIn⟩

-- A cycle is complained about where the parent that closes it does not exist.
theorem grazing_fails : (grazing.projectDefinition "A" .external .blank).1 = .error (.cyclicExtends "A" ["A", "A"]) ∧
    ∀ a, ¬grazing.Circles .external a := by
  refine ⟨by cbv, fun a circles => ?_⟩
  obtain ⟨b, _, p, ⟨n, x, o, found, survives, shape, listed, _⟩, kept⟩ := TransGen.tail'_iff.1 circles
  cases find?_single rfl found
  cases survives with
  | self =>
    cases shape
    cases List.mem_singleton.1 listed
    cases kept
  | under _ child => cases child

end Registry
end TwinShape
