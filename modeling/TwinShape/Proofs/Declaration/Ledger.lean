import Mathlib.Logic.Relation
import TwinShape.Proofs.Declaration.Rendering
import TwinShape.Proofs.Registry.Requests
import TwinShape.Proofs.Walk

namespace TwinShape

structure Origin where
  definition : String
  variant : Variant
  node : Node

structure Call where
  definition : String
  variant : Variant
  name : String

-- What has been met in the writing of declarations, the latest first.
structure Ledger where
  -- By the names of the declarations.
  origins : Table Origin
  calls : List Call
  -- Each module with the names that are taken from it, in the order of first use.
  imports : Table (List String)

def withImport (imports : Table (List String)) (module name : String) : Table (List String) :=
  let names := (imports.get? module).getD []
  imports.set module (if name ∈ names then names else names ++ [name])

namespace Ledger

def blank : Ledger := ⟨[], [], []⟩

def answer (l : Ledger) (c : Call) : Ledger := { l with calls := c :: l.calls }

def enter (l : Ledger) (name : String) (o : Origin) : Ledger :=
  { l with origins := (name, o) :: l.origins, calls := ⟨o.definition, o.variant, name⟩ :: l.calls }

def take (l : Ledger) (module name : String) : Ledger := { l with imports := withImport l.imports module name }

def gives (l : Ledger) (v : Variant) (definition name : String) : Prop := ⟨definition, v, name⟩ ∈ l.calls

def takes (l : Ledger) (module name : String) : Prop := name ∈ (l.imports.get? module).getD []

structure Grows (l l' : Ledger) : Prop where
  origins : l.origins <:+ l'.origins
  calls : l.calls <:+ l'.calls
  takes : ∀ module name, l.takes module name → l'.takes module name

theorem Grows.refl (l : Ledger) : l.Grows l := ⟨List.suffix_rfl, List.suffix_rfl, fun _ _ => id⟩

theorem Grows.trans {l l' l'' : Ledger} (first : l.Grows l') (second : l'.Grows l'') : l.Grows l'' :=
  ⟨first.origins.trans second.origins, first.calls.trans second.calls, fun module name known =>
    second.takes module name (first.takes module name known)⟩

theorem Grows.keys {l l' : Ledger} (grows : l.Grows l') : l.origins.keys ⊆ l'.origins.keys :=
  List.map_subset _ grows.origins.subset

theorem grows_answer (l : Ledger) (c : Call) : l.Grows (l.answer c) :=
  ⟨List.suffix_rfl, List.suffix_cons _ _, fun _ _ => id⟩

theorem grows_enter (l : Ledger) (name : String) (o : Origin) : l.Grows (l.enter name o) :=
  ⟨List.suffix_cons _ _, List.suffix_cons _ _, fun _ _ => id⟩

theorem takes_take (l : Ledger) (module name other taken : String) :
    (l.take module name).takes other taken ↔ l.takes other taken ∨ other = module ∧ taken = name := by
  unfold takes take withImport
  dsimp only
  rw [Table.get?_set]
  by_cases same : other = module
  · subst same
    rw [if_pos rfl, Option.getD_some]
    split
    · rename_i known
      exact ⟨.inl, fun either => either.elim id fun here => here.2 ▸ known⟩
    · rw [List.mem_append, List.mem_singleton]
      exact or_congr_right (and_iff_right rfl).symm
  · rw [if_neg same]
    exact ⟨.inl, fun either => either.elim id fun here => absurd here.1 same⟩

theorem grows_take (l : Ledger) (module name : String) : l.Grows (l.take module name) :=
  ⟨List.suffix_rfl, List.suffix_rfl, fun other taken known => (l.takes_take module name other taken).2 (.inl known)⟩

end Ledger

-- How far a walk over definitions has come: what it has met, and what it has still to do.
structure Progress where
  ledger : Ledger
  errands : List Errand
  memory : Memory

-- One errand at a time. A definition gets a declaration when the name that it would have
-- is not taken, and what its projection sends for comes next.
inductive Registry.Stride (r : Registry) (suffix : String) : Progress → Progress → Prop
  | take : Stride r suffix ⟨l, .take module name :: rest, m⟩ ⟨l.take module name, rest, m⟩
  | apart (compared : r.differs name m = (true, m')) :
      Stride r suffix ⟨l, .compare name :: rest, m⟩ ⟨l, .declare name .internal :: rest, m'⟩
  | alike (compared : r.differs name m = (false, m')) : Stride r suffix ⟨l, .compare name :: rest, m⟩ ⟨l, rest, m'⟩
  | again (judged : r.isApart name v m = (apart, m')) (taken : declaredName suffix name apart ∈ l.origins.keys) :
      Stride r suffix ⟨l, .declare name v :: rest, m⟩
        ⟨l.answer ⟨name, v, declaredName suffix name apart⟩, rest, m'⟩
  | absent (judged : r.isApart name v m = (apart, m')) (free : declaredName suffix name apart ∉ l.origins.keys)
      (projected : r.projectDefinition name v m' = (.ok none, m'')) :
      Stride r suffix ⟨l, .declare name v :: rest, m⟩ ⟨l, rest, m''⟩
  | fresh (judged : r.isApart name v m = (apart, m')) (free : declaredName suffix name apart ∉ l.origins.keys)
      (projected : r.projectDefinition name v m' = (.ok (some n), m'')) :
      Stride r suffix ⟨l, .declare name v :: rest, m⟩
        ⟨l.enter (declaredName suffix name apart) ⟨name, v, n⟩, n.errands v ++ rest, m''⟩

abbrev Registry.Strides (r : Registry) (suffix : String) : Progress → Progress → Prop :=
  Relation.ReflTransGen (r.Stride suffix)

-- Something that the comparison of the shapes of a definition comes to at some memory of a
-- kind; the external shape always has the definition's own name.
def Registry.Judges (r : Registry) (J : Memory → Prop) (name : String) (v : Variant) (apart : Bool) : Prop :=
  ∃ m, J m ∧ (r.isApart name v m).1 = apart

theorem Registry.Judges.external {r : Registry} {J : Memory → Prop} (judged : r.Judges J name .external apart) :
    apart = false := by
  obtain ⟨m, _, found⟩ := judged
  exact found.symm

-- The definitions that are come to from these names, each in the variants in which a
-- declaration that was come to refers to it.
inductive Ledger.Leads (r : Registry) (J : Memory → Prop) (names : List String) (l : Ledger) : String → Variant → Prop
  | listed (member : name ∈ names) : Leads r J names l name .external
  | apart (member : name ∈ names) (found : r.Judges J name .internal true) : Leads r J names l name .internal
  | mentioned (entry : (identifier, o) ∈ l.origins) (leads : Leads r J names l o.definition o.variant)
      (inside : .declare name o.variant ∈ o.node.errands o.variant) : Leads r J names l name o.variant

theorem Ledger.Leads.mono {r : Registry} {l l' : Ledger} (leads : l.Leads r J names name v) (grows : l.Grows l') :
    l'.Leads r J names name v := by
  induction leads with
  | listed member => exact .listed member
  | apart member found => exact .apart member found
  | mentioned entry _ inside ih => exact .mentioned (grows.origins.subset entry) ih inside

-- A name that a definition may have been given, as far as the comparison of its shapes goes.
def Registry.Names (r : Registry) (suffix : String) (J : Memory → Prop) (name : String) (v : Variant)
    (identifier : String) : Prop :=
  ∃ apart, r.Judges J name v apart ∧ identifier = declaredName suffix name apart

structure Ledger.Entered (r : Registry) (suffix : String) (J : Memory → Prop) (l : Ledger) (identifier : String)
    (o : Origin) : Prop where
  named : r.Names suffix J o.definition o.variant identifier
  projected : r.Tells J o.definition o.variant (some o.node)
  called : l.gives o.variant o.definition identifier

structure Ledger.Answered (r : Registry) (suffix : String) (J : Memory → Prop) (names : List String) (l : Ledger)
    (c : Call) : Prop where
  named : r.Names suffix J c.definition c.variant c.name
  declared : c.name ∈ l.origins.keys
  led : l.Leads r J names c.definition c.variant

def Ledger.Mentions (l : Ledger) (module name : String) : Prop :=
  ∃ e ∈ l.origins, .take module name ∈ e.2.node.errands e.2.variant

structure Ledger.Sound (r : Registry) (suffix : String) (J : Memory → Prop) (names : List String) (l : Ledger) : Prop where
  origins : ∀ e ∈ l.origins, l.Entered r suffix J e.1 e.2
  calls : ∀ c ∈ l.calls, l.Answered r suffix J names c
  imports : ∀ module name, l.takes module name → l.Mentions module name

def Errand.Due (r : Registry) (J : Memory → Prop) (names : List String) (l : Ledger) : Errand → Prop
  | .declare name v => l.Leads r J names name v
  | .compare name => name ∈ names
  | .take module name => l.Mentions module name

-- What an errand has come to in the end.
def Errand.Done (r : Registry) (J : Memory → Prop) (l : Ledger) : Errand → Prop
  | .declare name v => (∃ identifier, l.gives v name identifier) ∨ r.Tells J name v none
  | .compare name => r.Judges J name .internal false ∨ (∃ identifier, l.gives .internal name identifier) ∨
      r.Tells J name .internal none
  | .take module name => l.takes module name

section
variable {r : Registry} {suffix : String} {J : Memory → Prop} {names : List String} {l l' : Ledger}

theorem Ledger.Entered.mono (entered : l.Entered r suffix J identifier o) (grows : l.Grows l') :
    l'.Entered r suffix J identifier o :=
  ⟨entered.named, entered.projected, grows.calls.subset entered.called⟩

theorem Ledger.Answered.mono (answered : l.Answered r suffix J names c) (grows : l.Grows l') :
    l'.Answered r suffix J names c :=
  ⟨answered.named, grows.keys answered.declared, answered.led.mono grows⟩

theorem Ledger.Mentions.mono (mentions : l.Mentions module name) (grows : l.Grows l') : l'.Mentions module name := by
  obtain ⟨e, entry, inside⟩ := mentions
  exact ⟨e, grows.origins.subset entry, inside⟩

theorem Errand.Due.mono {e : Errand} (due : e.Due r J names l) (grows : l.Grows l') : e.Due r J names l' := by
  cases e with
  | declare name v => exact Ledger.Leads.mono due grows
  | compare name => exact due
  | take module name => exact Ledger.Mentions.mono due grows

namespace Ledger.Sound

theorem blank : Ledger.blank.Sound r suffix J names := ⟨nofun, nofun, fun _ _ known => absurd known List.not_mem_nil⟩

theorem take (sound : l.Sound r suffix J names) (mentions : l.Mentions module name) :
    (l.take module name).Sound r suffix J names := by
  have grows := l.grows_take module name
  refine ⟨fun e entry => (sound.origins e entry).mono grows, fun c called => (sound.calls c called).mono grows, ?_⟩
  intro other taken known
  rcases (l.takes_take module name other taken).1 known with before | ⟨rfl, rfl⟩
  · exact (sound.imports other taken before).mono grows
  · exact mentions.mono grows

theorem answer (sound : l.Sound r suffix J names) (answered : l.Answered r suffix J names c) :
    (l.answer c).Sound r suffix J names := by
  have grows := l.grows_answer c
  refine ⟨fun e entry => (sound.origins e entry).mono grows, ?_, fun other taken known => (sound.imports other taken known).mono grows⟩
  exact List.forall_mem_cons.2 ⟨answered.mono grows, fun c' called => (sound.calls c' called).mono grows⟩

theorem enter (sound : l.Sound r suffix J names) (leads : l.Leads r J names o.definition o.variant)
    (named : r.Names suffix J o.definition o.variant identifier) (projected : r.Tells J o.definition o.variant (some o.node)) :
    (l.enter identifier o).Sound r suffix J names := by
  have grows := l.grows_enter identifier o
  refine ⟨?_, ?_, fun other taken known => (sound.imports other taken known).mono grows⟩
  · refine List.forall_mem_cons.2 ⟨⟨named, projected, List.mem_cons_self⟩, fun e entry => ?_⟩
    exact (sound.origins e entry).mono grows
  · refine List.forall_mem_cons.2 ⟨⟨named, List.mem_cons_self, leads.mono grows⟩, fun c called => ?_⟩
    exact (sound.calls c called).mono grows

end Ledger.Sound

-- What holds all along the way.
structure Progress.Sound (r : Registry) (suffix : String) (J : Memory → Prop) (names : List String) (s : Progress) : Prop where
  ledger : s.ledger.Sound r suffix J names
  due : ∀ e ∈ s.errands, e.Due r J names s.ledger
  held : J s.memory

end

namespace Registry
variable {r : Registry} {suffix : String} {J : Memory → Prop} {names : List String} {s t : Progress}

theorem stride_grows (stride : r.Stride suffix s t) : s.ledger.Grows t.ledger := by
  cases stride with
  | take => exact Ledger.grows_take _ _ _
  | apart _ | alike _ | absent _ _ _ => exact .refl _
  | again _ _ => exact Ledger.grows_answer _ _
  | fresh _ _ _ => exact Ledger.grows_enter _ _ _

theorem strides_grow (strides : r.Strides suffix s t) : s.ledger.Grows t.ledger := by
  induction strides with
  | refl => exact .refl _
  | tail _ stride ih => exact ih.trans (stride_grows stride)

variable (kept : Kept r J)
include kept

theorem held_judged (held : J m) (judged : r.isApart name v m = (apart, m')) : J m' ∧ r.Judges J name v apart := by
  refine ⟨?_, m, held, congrArg Prod.fst judged⟩
  cases v with
  | external =>
    cases judged
    exact held
  | internal =>
    have after := kept.differs name m held
    rwa [show r.differs name m = _ from judged] at after

theorem held_projected (held : J m) (projected : r.projectDefinition name v m = (.ok answer, m')) :
    J m' ∧ r.Tells J name v answer := by
  refine ⟨?_, m, held, congrArg Prod.fst projected⟩
  have after := kept.projectDefinition name v m held
  rwa [projected] at after

theorem stride_sound (stride : r.Stride suffix s t) (sound : s.Sound r suffix J names) : t.Sound r suffix J names := by
  obtain ⟨ledger, due, held⟩ := sound
  have grows := stride_grows stride
  cases stride with
  | take =>
    exact ⟨ledger.take (due _ List.mem_cons_self), fun e waiting => (due e (List.mem_cons_of_mem _ waiting)).mono grows, held⟩
  | apart compared =>
    obtain ⟨held', judged⟩ := held_judged kept (v := .internal) held compared
    have listed : _ ∈ names := due _ List.mem_cons_self
    refine ⟨ledger, List.forall_mem_cons.2 ⟨.apart listed judged, fun e waiting => ?_⟩, held'⟩
    exact due e (List.mem_cons_of_mem _ waiting)
  | alike compared =>
    exact ⟨ledger, fun e waiting => due e (List.mem_cons_of_mem _ waiting),
      (held_judged kept (v := .internal) held compared).1⟩
  | again judged taken =>
    obtain ⟨held', judges⟩ := held_judged kept held judged
    have leads := due _ List.mem_cons_self
    exact ⟨ledger.answer ⟨⟨_, judges, rfl⟩, taken, leads⟩, fun e waiting =>
      (due e (List.mem_cons_of_mem _ waiting)).mono grows, held'⟩
  | absent judged free projected =>
    have held' := (held_judged kept held judged).1
    exact ⟨ledger, fun e waiting => due e (List.mem_cons_of_mem _ waiting), (held_projected kept held' projected).1⟩
  | fresh judged free projected =>
    obtain ⟨held', judges⟩ := held_judged kept held judged
    obtain ⟨held'', told⟩ := held_projected kept held' projected
    have leads : Ledger.Leads r J names _ _ _ := due _ List.mem_cons_self
    refine ⟨ledger.enter leads ⟨_, judges, rfl⟩ told, fun e waiting => ?_, held''⟩
    rcases List.mem_append.1 waiting with inside | waiting
    · obtain ⟨x, -, sends⟩ := Node.exists_sender inside
      rcases Shape.errand?_cases sends with ⟨other, -, rfl⟩ | ⟨other, module, -, rfl⟩
      · exact .mentioned (o := ⟨_, _, _⟩) List.mem_cons_self (leads.mono grows) inside
      · exact ⟨_, List.mem_cons_self, inside⟩
    · exact (due e (List.mem_cons_of_mem _ waiting)).mono grows

theorem strides_sound (strides : r.Strides suffix s t) (sound : s.Sound r suffix J names) :
    t.Sound r suffix J names := by
  induction strides with
  | refl => exact sound
  | tail _ stride ih => exact stride_sound kept stride ih

-- Every errand comes to something: what it was sent for, or an answer that there is nothing.
theorem strides_done (strides : r.Strides suffix s t) (finished : t.errands = []) (sound : s.Sound r suffix J names) :
    ∀ e ∈ s.errands, e.Done r J t.ledger := by
  induction strides using Relation.ReflTransGen.head_induction_on with
  | refl =>
    rw [finished]
    exact nofun
  | @head s u stride rest ih =>
    have done := ih (stride_sound kept stride sound)
    have grows := strides_grow rest
    have held := sound.held
    cases stride with
    | take => exact List.forall_mem_cons.2 ⟨grows.takes _ _ ((Ledger.takes_take _ _ _ _ _).2 (.inr ⟨rfl, rfl⟩)), done⟩
    | apart compared =>
      obtain ⟨here, later⟩ := List.forall_mem_cons.1 done
      exact List.forall_mem_cons.2 ⟨.inr here, later⟩
    | alike compared =>
      exact List.forall_mem_cons.2 ⟨.inl (held_judged kept (v := .internal) held compared).2, done⟩
    | again judged taken =>
      exact List.forall_mem_cons.2 ⟨.inl ⟨_, grows.calls.subset List.mem_cons_self⟩, done⟩
    | absent judged free projected =>
      have held' := (held_judged kept held judged).1
      exact List.forall_mem_cons.2 ⟨.inr (held_projected kept held' projected).2, done⟩
    | fresh judged free projected =>
      refine List.forall_mem_cons.2 ⟨.inl ⟨_, grows.calls.subset List.mem_cons_self⟩, fun e waiting => ?_⟩
      exact done e (List.mem_append_right _ waiting)

end Registry
end TwinShape
