import TwinShape.Declaration.Drafting
import TwinShape.Proofs.Node.Tree
import TwinShape.Proofs.Repetition

namespace TwinShape

-- When declarations are written alike from two states of knowledge. `good` is what can be said
-- of projected nodes, and `lacking` of definitions that have no projection.
structure Redrafting (r : Registry) where
  memory : Memory → Memory → Prop
  fault : Fault → Prop
  source : String → Node → Prop
  good : Variant → Node → Prop
  lacking : Variant → String → Prop
  child : good v n → c ∈ n.children → good v c
  absent : good v n → n.shape = .reference name → lacking v name → fault (.absentInVariant definition name v)
  unwritten : fault (.missingRawBackend definition backend)
  resolve : Inquiry.Repeats memory fault (fun target => source name target.val) (r.resolve name)
  project : source name n → Inquiry.Repeats memory fault
    (fun out => (out = none → lacking v name) ∧ ∀ m, out = some m → good v m) (r.project name n v)
  differs : Inquiry.Repeats memory fault (fun _ => True) (Inquiry.ofTotal (r.differs name))

namespace Redrafting
variable {r : Registry} (run : Redrafting r)

-- Drafts that have come equally far.
def Draft (d e : TwinShape.Draft) : Prop :=
  run.memory d.memory e.memory ∧ d.slots = e.slots ∧ d.imports = e.imports

abbrev Writes (P : α → Prop) (x : Drafting α) : Prop := Inquiry.Repeats run.Draft run.fault P x

variable {run}

theorem ask_writes {P : α → Prop} {q : Question α} (repeats : Inquiry.Repeats run.memory run.fault P q) :
    run.Writes P (Drafting.ask q) :=
  repeats.within (fun _ _ seen => seen.1) fun _ _ _ _ seen after => ⟨after, seen.2⟩

theorem fill_writes (name : String) (declaration : Option Declaration) :
    run.Writes (fun _ => True) (Drafting.fill name declaration) :=
  .learn fun _ _ seen => ⟨seen.1, congrArg (fun slots => slots.set name declaration) seen.2.1, seen.2.2⟩

theorem import_writes (module name : String) : run.Writes (fun _ => True) (Drafting.takeImport module name) := by
  refine .learn fun d e seen => ⟨seen.1, seen.2.1, ?_⟩
  dsimp only
  rw [seen.2.2]

theorem apart_writes (name : String) (v : Variant) :
    run.Writes (fun _ => True) (Drafting.ask (Inquiry.ofTotal (r.isApart name v))) := by
  refine ask_writes ?_
  cases v with
  | external => exact fun _ _ seen => ⟨rfl, seen, trivial⟩
  | internal => exact run.differs

variable {s : DraftScope} {depth : Nat}

theorem types_write {nodes : List Node} (each : ∀ n ∈ nodes, run.Writes (fun _ => True) (typeOf r s depth n)) :
    run.Writes (fun _ => True) (typesOf r s depth nodes) := by
  induction nodes with
  | nil =>
    rw [typesOf]
    exact .pure trivial
  | cons n rest ih =>
    rw [typesOf]
    refine .bind (each n List.mem_cons_self) fun _ _ => ?_
    exact .bind (ih fun m member => each m (List.mem_cons_of_mem _ member)) fun _ _ => .pure trivial

theorem members_write {properties : List (Property Node)}
    (each : ∀ n ∈ properties.map (·.value), run.Writes (fun _ => True) (typeOf r s (depth + 1) n)) :
    run.Writes (fun _ => True) (membersOf r s depth properties) := by
  induction properties with
  | nil =>
    rw [membersOf]
    exact .pure trivial
  | cons p rest ih =>
    rw [membersOf]
    refine .bind (each _ List.mem_cons_self) fun _ _ => ?_
    exact .bind (ih fun m member => each m (List.mem_cons_of_mem _ member)) fun _ _ => .pure trivial

theorem index_writes {additional : Additional Node}
    (each : ∀ n ∈ additional.nodes, run.Writes (fun _ => True) (typeOf r s (depth + 1) n)) :
    run.Writes (fun _ => True) (indexOf r s depth additional) := by
  cases additional with
  | forbidden =>
    rw [indexOf]
    exact .pure trivial
  | allowed =>
    rw [indexOf]
    exact .pure trivial
  | shape n =>
    rw [indexOf]
    exact .bind (each n List.mem_cons_self) fun _ _ => .pure trivial

theorem shape_writes {n : Node} (good : run.good s.variant n)
    (declared : ∀ name, run.Writes (fun found => found = none → run.lacking s.variant name) (declare r s name))
    (each : ∀ c ∈ n.children, ∀ depth, run.Writes (fun _ => True) (typeOf r s depth c)) :
    run.Writes (fun _ => True) (typeOf r s depth n) := by
  obtain ⟨shape, annotations, optionality, restriction, misuse⟩ := n
  change ∀ c ∈ shape.children, _ at each
  cases shape with
  | object o =>
    obtain ⟨properties, additional, parents⟩ := o
    rw [typeOf]
    refine .bind (members_write fun c member => each c ?_ _) fun _ _ => ?_
    · exact List.mem_append_left _ (List.mem_append_left _ member)
    · refine .bind (index_writes fun c member => each c ?_ _) fun _ _ => .pure trivial
      exact List.mem_append_left _ (List.mem_append_right _ member)
  | array item =>
    rw [typeOf]
    exact .bind (each _ List.mem_cons_self _) fun _ _ => .pure trivial
  | union members =>
    rw [typeOf]
    exact .bind (types_write fun c member => each c member _) fun _ _ => .pure trivial
  | reference name =>
    rw [typeOf]
    refine .bind (declared name) fun found lacking => ?_
    cases found with
    | none => exact .fail (run.absent good rfl (lacking rfl))
    | some declared => exact .pure trivial
  | raw declaration schema =>
    cases declaration <;> rw [typeOf]
    · exact .fail run.unwritten
    · exact .pure trivial
  | imported name module =>
    rw [typeOf]
    exact .bind (import_writes module name) fun _ _ => .pure trivial
  | linked declaration schema =>
    rw [typeOf]
    exact each _ List.mem_cons_self _
  | _ =>
    rw [typeOf]
    exact .pure trivial

theorem body_writes {n : Node} (here : ∀ depth, run.Writes (fun _ => True) (typeOf r s depth n))
    (each : ∀ c ∈ n.children, ∀ depth, run.Writes (fun _ => True) (typeOf r s depth c)) :
    run.Writes (fun _ => True) (bodyOf r s n) := by
  rw [bodyOf.eq_def]
  split
  · rename_i properties additional parents annotations optionality restriction misuse
    change ∀ c ∈ Shape.children (.object ⟨properties, additional, parents⟩), _ at each
    refine .bind (members_write fun c member => each c ?_ _) fun _ _ => ?_
    · exact List.mem_append_left _ (List.mem_append_left _ member)
    · refine .bind (index_writes fun c member => each c ?_ _) fun _ _ => .pure trivial
      exact List.mem_append_left _ (List.mem_append_right _ member)
  · exact .pure trivial
  · exact .bind (here 0) fun _ _ => .pure trivial

-- One more name is being written while the body of a declaration is.
theorem declare_writes {name : String}
    (inside : ∀ t : DraftScope, t.variant = s.variant → t.unwritten r < s.unwritten r → ∀ n, run.good s.variant n →
      run.Writes (fun _ => True) (bodyOf r t n)) :
    run.Writes (fun found => found = none → run.lacking s.variant name) (declare r s name) := by
  rw [declare]
  refine .bind (apart_writes name s.variant) fun apart _ => ?_
  refine .inspect (fun d e seen => by dsimp only; rw [seen.2.1]) fun draft => ?_
  split
  · exact .pure nofun
  · rename_i fresh
    refine .bind (ask_writes run.resolve) fun target source => ?_
    obtain ⟨n, found⟩ := target
    refine .bind (ask_writes (run.project source)) ?_
    rintro projected ⟨lacking, good⟩
    cases projected with
    | none => exact .pure fun _ => lacking rfl
    | some n =>
      refine .bind (fill_writes _ _) fun _ _ => ?_
      let below := { s with writing := declaredName s.suffix name apart :: s.writing, definition := name }
      refine .bind (inside below rfl ?_ n (good n rfl)) fun body _ => ?_
      · exact Registry.unvisitedIn_cons_lt (Registry.declaredName_mem (r.mem_names_of_find? found) _ _)
          fun busy => fresh (.inl busy)
      · exact .bind (fill_writes _ _) fun _ _ => .pure nofun

theorem type_writes (s : DraftScope) (depth : Nat) (n : Node) (good : run.good s.variant n) :
    run.Writes (fun _ => True) (typeOf r s depth n) := by
  refine shape_writes good (fun name => ?_) fun c child depth => type_writes s depth c (run.child good child)
  refine declare_writes fun t same fewer m good' => ?_
  have good : run.good t.variant m := same ▸ good'
  exact body_writes (fun depth => type_writes t depth m good) fun c child depth =>
    type_writes t depth c (run.child good child)
termination_by (s.unwritten r, sizeOf n)
decreasing_by
  all_goals first
    | exact .left _ _ ‹_›
    | exact .right _ (Node.sizeOf_child ‹_›)

theorem definition_writes (s : DraftScope) (name : String) :
    run.Writes (fun found => found = none → run.lacking s.variant name) (declare r s name) :=
  declare_writes fun t same _ m good' =>
    have good : run.good t.variant m := same ▸ good'
    body_writes (fun depth => type_writes t depth m good) fun c child depth => type_writes t depth c (run.child good child)

theorem declareAll_writes (suffix : String) (names : List String) :
    run.Writes (fun _ => True) (r.declareAll suffix names) := by
  induction names with
  | nil => exact .pure trivial
  | cons name rest ih =>
    refine .bind (definition_writes _ name) fun _ _ => ?_
    refine .bind (ask_writes run.differs) fun apart _ => ?_
    cases apart
    · exact ih
    · exact .bind (definition_writes _ name) fun _ _ => ih

variable (run)

theorem declarations_repeat (names : List String) (suffix : String) :
    Inquiry.Repeats run.memory run.fault (fun _ => True) (r.declarationsFor names suffix) := by
  intro m n seen
  have repeats := @declareAll_writes r run suffix names ⟨m, [], []⟩ ⟨n, [], []⟩ ⟨seen, rfl, rfl⟩
  unfold Registry.declarationsFor
  revert repeats
  rcases r.declareAll suffix names ⟨m, [], []⟩ with ⟨e | a, d⟩ <;>
    rcases r.declareAll suffix names ⟨n, [], []⟩ with ⟨f | b, d'⟩ <;> rintro ⟨same, ⟨after, slots, imports⟩, ended⟩
  · exact ⟨congrArg Except.error (Except.error.inj same), after, ended⟩
  · cases same
  · cases same
  · refine ⟨?_, after, trivial⟩
    dsimp only
    rw [slots, imports]

end Redrafting
end TwinShape
