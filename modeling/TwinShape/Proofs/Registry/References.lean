import TwinShape.Proofs.Schema.Absence
import TwinShape.Proofs.Variation.Exactness

namespace TwinShape
namespace Registry
variable {r : Registry}

-- Declarations miss no shape where decisions are steady in both variants.
def groundedDrafts (steady : ∀ v, r.Steady v) : Redrafting r where
  memory m n := m = n ∧ r.Ready (fun _ => True) m
  fault e := e.isAbsence = false
  source := r.Resolves
  good v n := n.RefersTo (· ∈ r.existing v)
  lacking v := r.Lacking v
  child refers member := (Node.each_iff.1 refers).2 _ member
  absent refers shape lacking := absurd lacking (not_lacking_of_existing (refers _ .self _ shape))
  unwritten := rfl
  resolve := resolve_ends (fun v _ => steady v) _
  project resolves := project_ends (fun v _ => steady v) trivial resolves
  differs := Inquiry.Ends.intro fun m ready => ⟨(ready_kept fun v _ => steady v).differs _ m ready, trivial⟩

theorem declarationsFor_absence (steady : ∀ v, r.Steady v) {m : Memory} (ready : r.Ready (fun _ => True) m)
    {names : List String} (failed : (r.declarationsFor names suffix m).1 = .error fault) : fault.isAbsence = false := by
  have ended := (Inquiry.Ends.elim ((groundedDrafts steady).declarations_repeat names suffix) ready).2
  rw [failed] at ended
  exact ended

-- The references that are left name definitions that have a projection exactly if decisions about
-- presence are steady.
theorem references_hold_iff (r : Registry) :
    (∀ v, r.Projectable v → (r.Grounded v ↔ r.Steady v)) ∧
    (r.Steady .external → ∀ history names options fault,
      (r.schemaFor names options (r.afterAll history .blank)).1 = .error fault → fault.isAbsence →
        ∃ root, options.root = some root ∧ fault = .absentInVariant "schema root" root .external ∧
          (r.projectDefinition root .external .blank).1 = .ok none) ∧
    ((∀ v, r.Steady v) → ∀ history names suffix fault,
      (r.declarationsFor names suffix (r.afterAll history .blank)).1 = .error fault → fault.isAbsence = false) := by
  refine ⟨fun v projectable => grounded_iff_steady projectable, fun steady history names options fault failed absent => ?_,
    fun steady history names suffix fault failed => ?_⟩
  · have external : ∀ v, v = .external → r.Steady v := fun v same => same ▸ steady
    exact schemaFor_absence external (ready_afterAll external history) failed absent
  · exact declarationsFor_absence steady (ready_afterAll (fun v _ => steady v) history) failed

-- `X` still refers to `B`, which has no projection; so the schema of `X` cannot be written.
theorem leaning_dangles :
    (∀ name ∈ leaning.names, ∃ out, (leaning.projectDefinition name .external .blank).1 = .ok out) ∧
    ¬leaning.Grounded .external ∧ (leaning.schema .plain .blank).1 = .error (.absentInVariant "X" "B" .external) := by
  refine ⟨fun name registered => ?_, fun grounded => ?_, by cbv⟩
  · have listed : name = "A" ∨ name = "B" ∨ name = "X" := by simpa [names, leaning] using registered
    rcases listed with rfl | rfl | rfl
    · exact ⟨none, by cbv⟩
    · exact ⟨none, by cbv⟩
    · exact ⟨some (.ofProperties []), by cbv⟩
  · have left : (leaning.projectDefinition "X" .external (leaning.afterAll [.projectDefinition "X" .external] .blank)).1 =
        .ok (some (.ofProperties [.of "b" (.referenceTo "B")])) := by cbv
    have gone : (leaning.projectDefinition "B" .external
        (leaning.afterAll [.projectDefinition "X" .external] .blank)).1 = .ok none := by cbv
    obtain ⟨own, projected⟩ := (grounded [.projectDefinition "X" .external]).1 "X" _ left (.referenceTo "B")
      (.inside List.mem_cons_self .self) "B" rfl []
    rw [List.append_nil, gone] at projected
    cases projected

-- A lone definition that exists is found present or not known yet, and then it is found present.
theorem steady_of_lone {v : Variant} {d : Definition} (lone : r.definitions = [d]) (exists_ : d.name ∈ r.existing v)
    (present : ∀ referencing, (r.presenceFrom referencing d.name v .blank).1 = .ok true) : r.Steady v := by
  intro decided referencing name
  have fair := fair_decideAll r v decided
  by_cases registered : name ∈ r.names
  · have same : name = d.name := by simpa [names, lone] using registered
    subst same
    cases recalled : (r.decideAll v decided .blank).recallPresence (d.name, v) with
    | none =>
      refine (presence_alike ⟨fun other => ?_, fair.built.sound, Memory.sound_blank r⟩ referencing d.name).1
      by_cases here : other = d.name
      · exact here ▸ recalled
      · exact decideAll_unregistered (by simpa [names, lone] using here) decided
    | some known =>
      cases known with
      | false => exact absurd exists_ (fair.absent recalled)
      | true => rw [present, presenceFrom_eq, recalled]
  · exact (presence_unregistered registered decided referencing).trans (presence_unregistered registered [] referencing).symm

theorem circling_steady (v : Variant) : circling.Steady v := by
  refine steady_of_lone (d := ⟨"A", .arrayOf (.referenceTo "A")⟩) rfl ?_ fun referencing => ?_
  · have supports : {"A"} ⊆ circling.supported v {"A"} := by
      rintro _ rfl
      exact ⟨.arrayOf (.referenceTo "A"), ⟨rfl, rfl⟩, .array rfl rfl (.reference rfl rfl rfl)⟩
    exact subset_existing supports rfl
  · cases v <;> cbv

-- A definition that refers to itself is grounded, and written out without missing a shape.
theorem circling_holds :
    circling.Grounded .external ∧
    (∀ history names suffix fault, (circling.declarationsFor names suffix (circling.afterAll history .blank)).1 = .error fault →
      fault.isAbsence = false) := by
  have registered : ∀ name ∈ circling.names, name = "A" := fun name member => by simpa [names, circling] using member
  have projectable : circling.Projectable .external := by
    refine projectable_of_steady (circling_steady .external) (fun name member => ?_) fun name member definition => ?_
    · rw [registered name member]
      exact ⟨some (.arrayOf (.referenceTo "A")), by cbv⟩
    · rw [registered name member]
      exact ⟨some (.referenceTo "A"), by cbv⟩
  obtain ⟨grounded, _, declarations⟩ := references_hold_iff circling
  exact ⟨(grounded .external projectable).2 (circling_steady .external), declarations circling_steady⟩

end Registry
end TwinShape
