import TwinShape.Proofs.InPlace.Projector
import TwinShape.Proofs.InPlace.Variation
import TwinShape.Proofs.Registry.Requests

namespace TwinShape
namespace InPlace

theorem both_tidy {first next : Descent Cells Contrast} (one : Tidies first) (other : Tidies next) :
    Tidies (both first next) := by
  refine .andThen one fun contrast => ?_
  cases contrast with
  | differs => exact .told _
  | alike leaned =>
    refine .andThen other fun contrast => ?_
    cases contrast <;> exact .told _

section
variable {enter : String → Descent Cells Contrast}

theorem properties_tidy {ps : List (Property Node)} (each : ∀ n ∈ ps.map (·.value), Tidies (walk enter n)) :
    Tidies (walkProperties enter ps) := by
  induction ps with
  | nil => exact .told _
  | cons p rest ih =>
    obtain ⟨name, value, restriction⟩ := p
    rw [walkProperties]
    split
    · exact .told _
    · exact both_tidy (each value List.mem_cons_self) (ih fun n member => each n (List.mem_cons_of_mem _ member))

theorem nodes_tidy {ns : List Node} (each : ∀ n ∈ ns, Tidies (walk enter n)) : Tidies (walkNodes enter ns) := by
  induction ns with
  | nil => exact .told _
  | cons n rest ih =>
    rw [walkNodes]
    exact both_tidy (each n List.mem_cons_self) (ih fun m member => each m (List.mem_cons_of_mem _ member))

theorem walk_tidies (entered : ∀ name, Tidies (enter name)) (n : Node) : Tidies (walk enter n) := by
  induction n using Node.tree_induction with
  | node n each =>
    obtain ⟨shape, annotations, optionality, restriction, misuse⟩ := n
    change ∀ c ∈ shape.children, _ at each
    have shapes : Tidies (walkShape enter shape) := by
      cases shape with
      | object o =>
        obtain ⟨properties, additional, parents⟩ := o
        have own := fun c member => each c (List.mem_append_left _ member)
        have further : Tidies (walkAdditional enter additional) := by
          cases additional with
          | shape n => exact own n (List.mem_append_right _ List.mem_cons_self)
          | _ => exact .told _
        rw [walkShape]
        refine both_tidy (properties_tidy fun c member => own c (List.mem_append_left _ member)) ?_
        exact both_tidy further (nodes_tidy fun c member => each c (List.mem_append_right _ member))
      | array item => exact each item List.mem_cons_self
      | union members => exact nodes_tidy each
      | linked declaration schema =>
        exact both_tidy (each declaration List.mem_cons_self) (each schema (List.mem_cons_of_mem _ List.mem_cons_self))
      | reference name => exact entered name
      | _ => exact .told _
    rw [walk]
    split
    · exact .told _
    · exact shapes

end

theorem projectDefinition_tidies (r : Registry) (depth : Nat) (name : String) (v : Variant) :
    Tidies (projectDefinition r depth name v) :=
  .bind (.ask r name name) fun target => (descend_orderly r v depth (.start name) target.val).tidies

theorem compare_tidies (r : Registry) (depth : Nat) (name : String) {walked : Descent Cells Contrast}
    (tidies : Tidies walked) :
    Tidies (compare r depth name walked) := by
  refine .andThen tidies fun contrast => ?_
  cases contrast with
  | differs => exact .told _
  | alike leaned =>
    refine .andThen ?_ fun apart => .told _
    exact .andThen (projectDefinition_tidies r depth name .internal) fun _ =>
      .andThen (projectDefinition_tidies r depth name .external) fun _ => .told _

-- A comparison that is over is no longer in progress. What it came to was not known before, and
-- nothing below could find it out, being in progress itself.
theorem Cells.Restored.compared {c c' : Cells} {name : String}
    (below : Cells.Restored { c with checking := name :: c.checking } c') (unknown : c.memory.recallVariation name = none)
    (free : name ∉ c.checking) (outcome : Contrast) :
    c.Restored { c' with checking := c'.checking.erase name, memory := c'.memory.rememberContrast name outcome } := by
  obtain ⟨projecting, checking, built, presence, variation⟩ := below
  have out : c'.checking.erase name = c.checking := by
    rw [checking]
    exact List.erase_cons_head _ _
  rcases outcome with _ | _ | _
  · exact ⟨projecting, out, built, presence, variation.record unknown free true⟩
  · exact ⟨projecting, out, built, presence, variation.record unknown free false⟩
  · exact ⟨projecting, out, built, presence, variation.fewer⟩

theorem definition_tidies (r : Registry) (depth : Nat) (name : String) : Tidies (definitionDiffers r depth name) := by
  induction depth generalizing name with
  | zero => exact .giveUp
  | succ depth ih =>
    intro c answer after done
    unfold definitionDiffers at done
    cases known : c.memory.recallVariation name with
    | some apart =>
      rw [known] at done
      cases apart <;> cases done <;> exact .refl
    | none =>
      rw [known] at done
      dsimp only at done
      split at done
      · cases done
        exact .refl
      · rename_i free
        have same := (Registry.resolveFrom_same (r := r) name name c.memory).variation
        have came : c.Restored { c with memory := (r.resolve name c.memory).2 } := .resolve r name name
        have unknown : (r.resolve name c.memory).2.recallVariation name = none := by
          unfold Memory.recallVariation Registry.resolve
          rw [same]
          exact known
        revert done came unknown
        rcases r.resolve name c.memory with ⟨e | target, m⟩ <;> intro done came unknown
        · cases done
          exact came
        · obtain ⟨⟨outcome, c'⟩, reached, same⟩ := Option.map_eq_some_iff.1 done
          cases same
          have below := compare_tidies r depth name (walk_tidies ih target.val) _ _ _ reached
          exact came.trans (Cells.Restored.compared (c := { c with memory := m }) below unknown free _)

theorem differs_tidies (r : Registry) (depth : Nat) (name : String) : Tidies (differs r depth name) :=
  .andThen (definition_tidies r depth name) fun contrast => .told contrast.isDifference

def nodeDiffers (r : Registry) (depth : Nat) (n : Node) : Descent Cells Bool :=
  (walk (definitionDiffers r depth) n).andThen fun contrast => .told contrast.isDifference

theorem nodeDiffers_tidies (r : Registry) (depth : Nat) (n : Node) : Tidies (nodeDiffers r depth n) :=
  .andThen (walk_tidies (definition_tidies r depth) n) fun contrast => .told contrast.isDifference

theorem nodeDiffers_rests {r : Registry} {depth : Nat} (enough : r.definitions.length + projectionDepth r < depth)
    (n : Node) :
    Mirrors (Rest []) (r.nodeDiffers n) (nodeDiffers r depth n) := by
  have room : r.unvisited [] + projectionDepth r < depth := Nat.lt_of_le_of_lt (Nat.add_le_add_right (unvisited_le r []) _) enough
  exact (node_walk (definition_rests depth room) n).andThen fun contrast => .told contrast.isDifference

theorem Tidies.onward {f : Memory → β × Memory} {g : Descent Cells β} (tidies : Tidies g)
    (mirrors : Mirrors (Rest []) f g)
    (m : Memory) : m.Onward [] [] (f m).2 := by
  obtain ⟨c, reached, rest⟩ := mirrors m ⟨m, [], [], 0⟩ ⟨rfl, rfl, rfl⟩
  rw [← rest.memory]
  exact (tidies _ _ _ reached).memory

theorem onward_kept (r : Registry) (m : Memory) : Kept r (m.Onward [] []) := by
  have enough : r.definitions.length + projectionDepth r < r.definitions.length + projectionDepth r + 1 := Nat.lt_succ_self _
  refine ⟨fun referencing name _ onward => onward.trans (.resolve referencing name), fun definition n v k onward => ?_,
    fun name k onward => ?_, fun n k onward => ?_⟩
  · have tidies := (descend_orderly r v (projectionDepth r) (.start definition) n).tidies
    exact onward.trans (tidies.onward (project_rests (Nat.le_refl _) definition n v) k)
  · exact onward.trans ((differs_tidies r _ name).onward (differs_rests enough name) k)
  · exact onward.trans ((nodeDiffers_tidies r _ n).onward (nodeDiffers_rests enough n) k)

end InPlace
end TwinShape
