import TwinShape.Proofs.Declaration.Rendering
import TwinShape.Proofs.Projection.Origins
import TwinShape.Proofs.Repetition
import TwinShape.Proofs.Schema.Fields

namespace TwinShape

def Shape.nodesFor : Backend → Shape Node → List Node
  | .declarations => Shape.typedNodes
  | .schema => Shape.writtenNodes

theorem Shape.child_of_nodesFor {b : Backend} {s : Shape Node} (member : c ∈ s.nodesFor b) : c ∈ s.children := by
  cases b with
  | declarations => exact child_of_typed member
  | schema => exact child_of_written member

-- What a backend complains of if it has nothing to write for a shape, once it is told the definition.
def Shape.complaint? : Backend → Shape Node → Option (String → Fault)
  | .declarations, .raw none _ => some fun definition => .missingRawBackend definition .declarations
  | .schema, .raw _ none => some fun definition => .missingRawBackend definition .schema
  | .schema, .imported .. => some fun definition => .unsupported definition "import" .schema
  | _, _ => none

theorem Shape.leaf_of_complaint {b : Backend} {s : Shape Node} (complains : s.complaint? b = some complaint) :
    s.isLeaf := by
  cases s with
  | raw | imported => rfl
  | _ => cases b <;> cases complains

-- The first node, in the order of writing, that a backend has nothing to write for.
def Node.firstMute? (b : Backend) (n : Node) : Option Node :=
  if (n.shape.complaint? b).isSome then some n
  else (n.shape.nodesFor b).attach.findSome? fun c => c.val.firstMute? b
termination_by sizeOf n
decreasing_by exact Node.sizeOf_child (Shape.child_of_nodesFor c.property)

namespace Node
variable {b : Backend} {n : Node}

theorem firstMute?_mute (complains : n.shape.complaint? b = some complaint) : n.firstMute? b = some n := by
  rw [firstMute?, complains]
  rfl

theorem firstMute?_inside (content : n.shape.complaint? b = none) :
    n.firstMute? b = (n.shape.nodesFor b).findSome? (Node.firstMute? b) := by
  rw [firstMute?, content, List.findSome?_subtype (g := Node.firstMute? b) fun _ _ => rfl, List.unattach_attach]
  rfl

theorem firstMute?_part (first : n.firstMute? b = some x) : x.Part n := by
  induction n using Node.tree_induction with
  | node n ih =>
    cases complains : n.shape.complaint? b with
    | some complaint =>
      rw [firstMute?_mute complains] at first
      cases first
      exact .self
    | none =>
      rw [firstMute?_inside complains] at first
      obtain ⟨c, member, first⟩ := List.exists_of_findSome?_eq_some first
      have child : c ∈ n.children := Shape.child_of_nodesFor member
      exact .inside child (ih c child first)

end Node

def Fault.isUnwritable : Fault → Bool
  | .missingRawBackend .. | .unsupported .. => true
  | _ => false

namespace Registry
variable {r : Registry} {v : Variant}

-- What stops a backend in a definition: the first node of its projection that there is nothing
-- to write for. It is a node that the definition has or inherits.
inductive Stops (r : Registry) (b : Backend) (v : Variant) (definition : String) (y : Node) : Fault → Prop
  | intro (told : r.Tells r.InSession definition v (some n)) (first : n.firstMute? b = some (y.rebuilt y.shape))
      (inherits : r.Inherits v y definition) (complains : y.shape.complaint? b = some complaint) :
      Stops r b v definition y (complaint definition)

theorem exists_stops {b : Backend} (told : r.Tells r.InSession definition v (some n)) (first : n.firstMute? b = some x)
    (complains : x.shape.complaint? b = some complaint) : ∃ y, r.Stops b v definition y (complaint definition) := by
  obtain ⟨y, inherits, rfl⟩ := inherits_of_tells told x (Node.firstMute?_part first) (Shape.leaf_of_complaint complains)
  exact ⟨y, .intro told first inherits complains⟩

def beforeWriting (r : Registry) (v : Variant) : Blame r v where
  here _ _ := True
  fault e _ := e.isUnwritable = false
  inside _ _ _ := trivial
  merged _ _ _ _ _ _ _ _ := trivial
  decided _ _ _ _ := trivial
  missing _ _ _ _ := rfl
  flawed _ _ := rfl
  circular _ _ _ _ _ _ := rfl
  collides _ _ _ _ := rfl
  foreign _ _ _ _ _ _ := rfl

-- The faults of a backend at work in a variant, whatever it is writing: either nothing that
-- only a backend complains of, or what stops it in some definition.
def Answers (r : Registry) (b : Backend) (v : Variant) (e : Fault) : Prop :=
  e.isUnwritable = false ∨ ∃ definition y, r.Stops b v definition y e

theorem projection_ends (b : Backend) (name : String) (v : Variant) :
    Inquiry.Ends r.InSession (r.Answers b v) (fun out => ∀ n, out = some n → r.Tells r.InSession name v (some n))
      (r.projectDefinition name v) := by
  refine Inquiry.Ends.intro fun m reached => ⟨(reached_kept r).projectDefinition name v m reached, ?_⟩
  cases answer : (r.projectDefinition name v m).1 with
  | error e => exact .inl ((r.beforeWriting v).definition_owns (fun _ _ => rfl) (fun _ _ => trivial) answer)
  | ok out =>
    rintro n rfl
    exact ⟨m, reached, answer⟩

end Registry

namespace Inquiry

-- An inquiry that writes for a definition: it ends well if there is nothing to stop it, and is
-- stopped in that definition otherwise, unless something else goes wrong before.
abbrev Writes (J : σ → Prop) (others : Fault → Prop) (b : Backend) (definition : String) (stop : Option Node)
    (x : Inquiry σ Fault α) : Prop :=
  Ends J (fun e => others e ∨ ∃ y complaint, stop = some y ∧ y.shape.complaint? b = some complaint ∧ e = complaint definition)
    (fun _ => stop = none) x

namespace Writes
variable {J : σ → Prop} {others : Fault → Prop} {b : Backend} {definition : String} {stop stop' : Option Node}

theorem pure {a : α} : Writes J others b definition none (Pure.pure a) := Repeats.pure rfl

theorem of_ends {x : Inquiry σ Fault α} (ends : Ends J others (fun _ => True) x) :
    Writes J others b definition none x :=
  ends.weaken (fun _ => .inl) fun _ _ => rfl

theorem stopped {y : Node} (complains : y.shape.complaint? b = some complaint) :
    Writes J others b definition (some y) (fail (complaint definition) : Inquiry σ Fault α) :=
  Repeats.fail (.inr ⟨y, complaint, rfl, complains, rfl⟩)

theorem bind {x : Inquiry σ Fault α} {f : α → Inquiry σ Fault β} (first : Writes J others b definition stop x)
    (next : ∀ a, Writes J others b definition stop' (f a)) : Writes J others b definition (stop.or stop') (x >>= f) := by
  have sooner : Ends J (fun e => others e ∨ ∃ y complaint, stop.or stop' = some y ∧ y.shape.complaint? b = some complaint ∧
      e = complaint definition) (fun _ => stop = none) x := by
    refine first.weaken ?_ fun _ => id
    rintro e (other | ⟨y, complaint, rfl, complains, same⟩)
    · exact .inl other
    · exact .inr ⟨y, complaint, rfl, complains, same⟩
  refine Repeats.bind sooner fun a none_ => ?_
  rw [none_, Option.none_or]
  exact next a

theorem bind_pure {x : Inquiry σ Fault α} {f : α → β} (first : Writes J others b definition stop x) :
    Writes J others b definition stop (x >>= fun a => Pure.pure (f a)) := by
  have both := first.bind fun a => (pure : Writes J others b definition none (Pure.pure (f a)))
  rwa [Option.or_none] at both

theorem cons {n : Node} {rest : List Node} {x : Inquiry σ Fault α} {f : α → Inquiry σ Fault β}
    (first : Writes J others b definition (n.firstMute? b) x)
    (next : ∀ a, Writes J others b definition (rest.findSome? (Node.firstMute? b)) (f a)) :
    Writes J others b definition ((n :: rest).findSome? (Node.firstMute? b)) (x >>= f) := by
  rw [← List.singleton_append, List.findSome?_append, List.findSome?_singleton]
  exact first.bind next

theorem answers {r : Registry} {v : Variant} {n : Node} {x : Inquiry σ Fault α}
    (told : r.Tells r.InSession definition v (some n))
    (writes : Writes J (r.Answers b v) b definition (n.firstMute? b) x) : Ends J (r.Answers b v) (fun _ => True) x := by
  refine writes.weaken ?_ fun _ _ => trivial
  rintro e (other | ⟨y, complaint, first, complains, rfl⟩)
  · exact other
  · exact .inr ⟨definition, Registry.exists_stops told first complains⟩

end Writes

end Inquiry

section
variable {part : τ → Memory} {put : τ → Memory → τ} (kept : ∀ t m, part (put t m) = m) {r : Registry} {fault : Fault → Prop}
include kept

theorem within_ends {P : α → Prop} {q : Question α} (ends : Inquiry.Ends r.InSession fault P q) :
    Inquiry.Ends (fun t => r.InSession (part t)) fault P (Inquiry.within part put q) := by
  refine Inquiry.Ends.intro fun t reached => ?_
  have ⟨after, ended⟩ := Inquiry.Ends.elim ends (s := part t) reached
  exact ⟨(kept t _).symm ▸ after, ended⟩

theorem projected_ends {name : String} {v : Variant} {P : α → Prop} {k : Option Node → Inquiry τ Fault α} (b : Backend)
    (last : ∀ t m m', put (put t m) m' = put t m')
    (next : ∀ out, (∀ n, out = some n → r.Tells r.InSession name v (some n)) →
      Inquiry.Ends (fun t => r.InSession (part t)) (r.Answers b v) P (k out)) :
    Inquiry.Ends (fun t => r.InSession (part t)) (r.Answers b v) P
      (Inquiry.within part put (r.resolve name) >>= fun target => Inquiry.within part put (r.project name target.val v) >>= k) := by
  have both : (Inquiry.within part put (r.resolve name) >>= fun target => Inquiry.within part put (r.project name target.val v) >>= k) =
      (Inquiry.within part put (r.projectDefinition name v) >>= k : Inquiry τ Fault α) := by
    funext t
    dsimp only [Registry.projectDefinition, Bind.bind, Inquiry.bind, Inquiry.within]
    rcases r.resolve name (part t) with ⟨e | target, m⟩
    · rfl
    · dsimp only
      rw [kept, last]
  rw [both]
  exact .bind (within_ends kept (r.projection_ends b name v)) next

end
end TwinShape
