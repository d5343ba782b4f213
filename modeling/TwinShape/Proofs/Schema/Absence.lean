import TwinShape.Proofs.Schema.Completion

namespace TwinShape
namespace Registry
variable {r : Registry} (steady : ∀ v, v = .external → r.Steady v)
include steady

def unmissing : Completion r where
  memory := r.Ready (· = .external)
  fault e := e.isAbsence = false
  good n := n.RefersTo (· ∈ r.existing .external)
  named _ := True
  lacking := r.Lacking .external
  child refers child := (Node.each_iff.1 refers).2 _ (Shape.child_of_written child)
  reference refers shape := ⟨trivial, not_lacking_of_existing (refers _ .self _ shape)⟩
  unwritable _ _ harmless := harmless
  resolve _ := resolve_ends steady _
  project _ resolves := project_ends steady rfl resolves

theorem schemaFor_absence {names : List String} {m : Memory} (ready : r.Ready (· = .external) m)
    (failed : (r.schemaFor names options m).1 = .error fault) (absent : fault.isAbsence) :
    ∃ root, options.root = some root ∧ fault = .absentInVariant "schema root" root .external ∧ r.Lacking .external root := by
  let allowed (e : Fault) : Prop := e.isAbsence → ∃ root, options.root = some root ∧
    e = .absentInVariant "schema root" root .external ∧ r.Lacking .external root
  have loose : ∀ e : Fault, e.isAbsence = false → allowed e := fun e harmless absent =>
    absurd (harmless.symm.trans absent) Bool.false_ne_true
  have root : Inquiry.Ends (fun d => r.Ready (· = .external) d.memory) allowed (fun _ => True)
      (r.collectRoot options.container options.root) := by
    cases given : options.root with
    | none => exact .pure trivial
    | some root =>
      refine .bind (((unmissing steady).definition_ends _ trivial).weaken loose fun _ => id) fun written lacking => ?_
      cases written with
      | true => exact .pure trivial
      | false => exact .fail fun _ => ⟨root, given, rfl, lacking rfl⟩
  have document : Inquiry.Ends (fun d => r.Ready (· = .external) d.memory) allowed (fun _ => True)
      (r.collectAll options.container names >>= fun _ => r.collectRoot options.container options.root) :=
    .bind (((unmissing steady).collectAll_ends _ fun _ _ => trivial).weaken loose fun _ => id) fun _ _ => root
  have ended := (Inquiry.Ends.elim document (s := ⟨m, []⟩) ready).2
  unfold schemaFor at failed
  dsimp only at failed
  revert failed ended
  rcases (r.collectAll options.container names >>= fun _ => r.collectRoot options.container options.root) ⟨m, []⟩ with ⟨e | a, d⟩ <;>
    intro failed ended
  · cases failed
    exact ended absent
  · cases failed

end Registry
end TwinShape
