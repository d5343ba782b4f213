import TwinShape.Proofs.Projection.Grounding
import TwinShape.Proofs.Repetition

namespace TwinShape
namespace Registry
variable {r : Registry} {v : Variant}

theorem resolveFrom_fault (answer : (r.resolveFrom referencing name m).1 = .error fault) : fault.isAbsence = false := by
  have asked := resolveFrom_asked (r := r) referencing name m
  revert asked answer
  rcases r.resolveFrom referencing name m with reply
  intro answer asked
  cases asked <;> cases answer <;> rfl

def searching (r : Registry) : Course Trail Fault where
  before t u := t.memory.Sound r → u.memory.Sound r
  refl := id
  trans first second sound := second (first sound)
  first := ⟨.blank, false⟩
  last := ⟨.blank, false⟩
  fault e := e.isAbsence = false

theorem resolve_searching (definition name : String) :
    r.searching.Says (fun target => r.Resolves name target.val) (Probe.ask (r.resolveFrom definition name)) := by
  intro t
  refine ⟨fun sound => resolveFrom_sound sound _ _, ?_⟩
  have fault : ∀ e, (r.resolveFrom definition name t.memory).1 = .error e → e.isAbsence = false := fun _ => resolveFrom_fault
  have found := fun sound : t.memory.Sound r => resolveFrom_answer sound definition name
  unfold Probe.ask Inquiry.within
  dsimp only
  revert fault found
  rcases (r.resolveFrom definition name t.memory).1 with e | target <;> intro fault found
  · exact fault e rfl
  · exact fun from_ _ => resolution_ok (found (from_ (Memory.sound_blank r))).symm

theorem settle_searching {P : Option Node → Prop} {p : Probe (Option Node)} (run : r.searching.Says P p)
    (name : String) :
    r.searching.Says (fun _ => True) (settlePresence v name p) := by
  intro t
  have told := run { t with leaned := false }
  rw [settlePresence_eq]
  revert told
  rcases p { t with leaned := false } with ⟨e | kept, after⟩ <;> intro told
  · exact told
  · refine ⟨?_, fun _ _ => trivial⟩
    dsimp only
    split <;> exact told.1

theorem presence_searching (scope : Scope) (name : String) :
    r.searching.Says (fun _ => True) (isPresent r v scope name) := by
  intro t
  rw [isPresent_eq]
  cases t.memory.recallPresence (name, v) with
  | some known => exact ⟨id, fun _ _ => trivial⟩
  | none =>
    dsimp only
    by_cases busy : name ∈ scope.projecting
    · rw [if_pos busy]
      exact ⟨id, fun _ _ => trivial⟩
    · rw [if_neg busy]
      have came := resolve_searching (r := r) scope.definition name t
      dsimp only [Bind.bind, Inquiry.bind]
      revert came
      rcases Probe.ask (r.resolveFrom scope.definition name) t with ⟨e | target, u⟩ <;> intro came
      · exact came
      · have run : r.searching.Says (Projects r v (fun _ _ => True) target.val)
            (projectNode r v (.start name (name :: scope.projecting)) target.val) :=
          node_projected (fun _ harmless => harmless) resolve_searching
            (fun inner other (level : inner.projecting = name :: scope.projecting) => presence_searching inner other)
            target.val (.start name (name :: scope.projecting)) rfl
        have went := settle_searching (v := v) run name u
        dsimp only
        revert went
        rcases settlePresence v name _ u with ⟨e | present, u'⟩ <;> intro went
        · exact ⟨fun sound => went.1 (came.1 sound), went.2⟩
        · exact ⟨fun sound => went.1 (came.1 sound), fun _ _ => trivial⟩
termination_by r.unvisited scope.projecting
decreasing_by
  rw [level]
  exact r.unvisited_cons_lt (r.mem_names_of_find? target.property) busy

-- Projection drops what does not exist, and never complains about it.
theorem project_fault (answer : (r.project definition n v m).1 = .error fault) : fault.isAbsence = false := by
  have run : r.searching.Says (Projects r v (fun _ _ => True) n) (projectNode r v (.start definition []) n) :=
    node_projected (fun _ harmless => harmless) resolve_searching (fun scope name _ => presence_searching scope name)
      n (.start definition []) rfl
  have run := run ⟨m, false⟩
  rw [project_eq] at answer
  change (projectNode r v (.start definition []) n ⟨m, false⟩).1 = _ at answer
  rw [answer] at run
  exact run.2

-- What may be known when something is written out: decisions about presence in some of the
-- variants, and no absence of what exists.
def Ready (r : Registry) (only : Variant → Prop) (m : Memory) : Prop := (∀ v, only v → r.Decided v m) ∧ m.Fair r

theorem ready_kept {only : Variant → Prop} (steady : ∀ v, only v → r.Steady v) : Kept r (r.Ready only) where
  resolve referencing name m ready :=
    ⟨fun v own => (decided_kept (steady v own)).resolve referencing name m (ready.1 v own), (fair_kept r).resolve referencing name m ready.2⟩
  project definition n w m ready :=
    ⟨fun v own => (decided_kept (steady v own)).project definition n w m (ready.1 v own), (fair_kept r).project definition n w m ready.2⟩
  differs name m ready :=
    ⟨fun v own => (decided_kept (steady v own)).differs name m (ready.1 v own), (fair_kept r).differs name m ready.2⟩
  nodeDiffers n m ready :=
    ⟨fun v own => (decided_kept (steady v own)).nodeDiffers n m (ready.1 v own), (fair_kept r).nodeDiffers n m ready.2⟩

theorem ready_afterAll {only : Variant → Prop} (steady : ∀ v, only v → r.Steady v) (history : List Request) :
    r.Ready only (r.afterAll history .blank) :=
  (ready_kept steady).afterAll_keeps history ⟨fun _ _ => decided_blank, Memory.fair_blank r⟩

-- A definition has no projection, not even on a fresh registry.
def Lacking (r : Registry) (v : Variant) (name : String) : Prop := (r.projectDefinition name v .blank).1 = .ok none

theorem not_lacking_of_existing (exists_ : name ∈ r.existing v) : ¬r.Lacking v name := fun lacking => by
  obtain ⟨own, same⟩ := projectDefinition_of_existing (Memory.fair_blank r) exists_ lacking
  cases same

theorem projectDefinition_steady (steady : r.Steady v) (resolves : r.Resolves name n) {m m' : Memory}
    (before : r.Decided v m) (before' : r.Decided v m') : (r.projectDefinition name v m).1 = (r.project name n v m').1 := by
  rw [projectDefinition_of_resolves (decided_sound before) resolves]
  exact (project_steady steady name n _ m' ⟨decided_resolve name name _ before, before'⟩).answer trivial

theorem projectable_of_steady (steady : r.Steady v)
    (definitions : ∀ name ∈ r.names, ∃ out, (r.projectDefinition name v .blank).1 = .ok out)
    (references : ∀ name ∈ r.names, ∀ definition, ∃ out, (r.project definition (.referenceTo name) v .blank).1 = .ok out) :
    r.Projectable v := by
  intro history name registered
  have before := decided_afterAll steady history
  constructor
  · obtain ⟨out, projected⟩ := definitions name registered
    obtain ⟨n, resolves, _⟩ := projectDefinition_ok (Memory.sound_blank r) projected
    have now := projectDefinition_steady steady resolves before decided_blank
    exact ⟨out, (now.trans (projectDefinition_steady steady resolves decided_blank decided_blank).symm).trans projected⟩
  · intro definition
    obtain ⟨out, projected⟩ := references name registered definition
    exact ⟨out, ((project_steady steady definition (.referenceTo name) _ _ ⟨before, decided_blank⟩).answer trivial).trans projected⟩

section
variable {only : Variant → Prop} (steady : ∀ v, only v → r.Steady v)
include steady

theorem resolve_ends (name : String) :
    Inquiry.Ends (r.Ready only) (fun e => e.isAbsence = false) (fun target => r.Resolves name target.val) (r.resolve name) := by
  refine Inquiry.Ends.intro fun m ready => ⟨(ready_kept steady).resolve name name m ready, ?_⟩
  have fault : ∀ e, (r.resolveFrom name name m).1 = .error e → e.isAbsence = false := fun _ => resolveFrom_fault
  have found := resolveFrom_answer ready.2.built.sound name name
  unfold resolve
  revert fault found
  rcases (r.resolveFrom name name m).1 with e | target <;> intro fault found
  · exact fault e rfl
  · exact resolution_ok found.symm

-- What is left in a projection exists; and where nothing is left, nothing ever was.
theorem project_ends (own : only v) (resolves : r.Resolves name n) :
    Inquiry.Ends (r.Ready only) (fun e => e.isAbsence = false)
      (fun out => (out = none → r.Lacking v name) ∧ ∀ m, out = some m → m.RefersTo (· ∈ r.existing v))
      (r.project name n v) := by
  refine Inquiry.Ends.intro fun m ready => ⟨(ready_kept steady).project name n v m ready, ?_⟩
  have same := projectDefinition_steady (steady v own) resolves decided_blank (ready.1 v own)
  have refers : ∀ k, (r.project name n v m).1 = .ok (some k) → k.RefersTo (· ∈ r.existing v) :=
    fun _ => refersTo_existing (exact_of_steady (steady v own)) (ready.1 v own)
  have fault : ∀ e, (r.project name n v m).1 = .error e → e.isAbsence = false := fun _ => project_fault
  revert same refers fault
  rcases (r.project name n v m).1 with e | out <;> intro same refers fault
  · exact fault e rfl
  · exact ⟨fun none_ => same.trans (congrArg Except.ok none_), fun k some_ => refers k (congrArg Except.ok some_)⟩

end
end Registry
end TwinShape
