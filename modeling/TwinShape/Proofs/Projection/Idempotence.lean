import TwinShape.Proofs.Projection.Grounding
import TwinShape.Proofs.Projection.Sturdiness

namespace TwinShape

namespace Merge

theorem override_fresh {m : Merge} {own : List (Property Node)} (distinct : (m.keys ++ own.map (·.name)).Nodup) :
    (m.override own).properties = m.properties ++ own := by
  induction own generalizing m with
  | nil => exact (List.append_nil _).symm
  | cons p rest ih =>
    have fresh : p.name ∉ m.keys := fun member =>
      (List.nodup_append.1 distinct).2.2 _ member p.name List.mem_cons_self rfl
    have keys : Table.keys (m.set p.name (p, none)) ++ rest.map (·.name) = m.keys ++ (p :: rest).map (·.name) := by
      rw [Table.set_fresh fresh, Table.keys, List.map_append, List.append_assoc]
      rfl
    have later := ih (keys ▸ distinct)
    change (Merge.override (m.set p.name (p, none)) rest).properties = _
    rw [later, Table.set_fresh fresh, Merge.properties, List.map_append, List.append_assoc]
    rfl

end Merge

-- Projection leaves alone what it has left before. `J` is what presence checks keep.
section
variable {r : Registry} {v : Variant} {J : Trail → Prop} {scope : Scope}

-- A node comes out as it is.
abbrev Stays (r : Registry) (v : Variant) (J : Trail → Prop) (scope : Scope) (n : Node) : Prop :=
  Inquiry.Ends J (fun _ => False) (· = some n) (projectNode r v scope n)

theorem members_stay {ms : List Node} (each : ∀ m ∈ ms, Stays r v J scope m) :
    Inquiry.Ends J (fun _ => False) (· = ms) (projectMembers r v scope ms) := by
  induction ms with
  | nil =>
    rw [projectMembers]
    exact .pure rfl
  | cons m rest ih =>
    rw [projectMembers]
    refine .bind (each m List.mem_cons_self) ?_
    rintro _ rfl
    refine .bind (ih fun n member => each n (List.mem_cons_of_mem _ member)) ?_
    rintro _ rfl
    exact .pure rfl

theorem properties_stay {ps : List (Property Node)} (free : ∀ p ∈ ps, p.restriction = .unrestricted)
    (each : ∀ m ∈ ps.map (·.value), Stays r v J scope m) :
    Inquiry.Ends J (fun _ => False) (· = ps) (projectProperties r v scope ps) := by
  induction ps with
  | nil =>
    rw [projectProperties]
    exact .pure rfl
  | cons p rest ih =>
    have others := ih (fun q member => free q (List.mem_cons_of_mem _ member)) fun m member =>
      each m (List.mem_cons_of_mem _ member)
    have here := free p List.mem_cons_self
    obtain ⟨name, value, restriction⟩ := p
    cases here
    rw [projectProperties, if_pos (Restriction.includes_unrestricted v)]
    refine .bind (each value List.mem_cons_self) ?_
    rintro _ rfl
    refine .bind others ?_
    rintro _ rfl
    exact .pure rfl

theorem additional_stays {own : Additional Node} (each : ∀ m ∈ own.nodes, Stays r v J scope m) :
    Inquiry.Ends J (fun _ => False) (· = own) (projectAdditional r v scope .forbidden own) := by
  cases own with
  | forbidden | allowed =>
    rw [projectAdditional]
    exact .pure rfl
  | shape n =>
    rw [projectAdditional]
    refine .bind (each n List.mem_cons_self) ?_
    rintro _ rfl
    exact .pure rfl

theorem shape_stays {shape : Shape Node} (tidy : shape.Tidy)
    (decided : ∀ name, shape = .reference name → Inquiry.Ends J (fun _ => False) (· = true) (isPresent r v scope name))
    (each : ∀ m ∈ shape.children, Stays r v J scope m) :
    Inquiry.Ends J (fun _ => False) (· = some shape) (projectShape r v scope shape) := by
  cases shape with
  | object o =>
    obtain ⟨properties, additional, parents⟩ := o
    obtain ⟨distinct, free, rfl⟩ := tidy
    have own := fun m member => each m (List.mem_append_left _ member)
    rw [projectShape, projectParents]
    refine .bind (.pure rfl : Inquiry.Ends J (fun _ => False) (· = (([] : Merge), Additional.forbidden)) _) ?_
    rintro _ rfl
    refine .bind (properties_stay free fun m member => own m (List.mem_append_left _ member)) ?_
    rintro _ rfl
    refine .bind (additional_stays fun m member => own m (List.mem_append_right _ member)) ?_
    rintro _ rfl
    refine .pure ?_
    rw [Merge.override_fresh (m := []) distinct]
    rfl
  | array item =>
    rw [projectShape]
    refine .bind (each item List.mem_cons_self) ?_
    rintro _ rfl
    exact .pure rfl
  | union members =>
    rw [projectShape]
    cases members with
    | nil => exact absurd rfl tidy
    | cons m rest =>
      refine .bind (members_stay each) ?_
      rintro _ rfl
      exact .pure rfl
  | reference name =>
    rw [projectShape]
    refine .bind (decided name rfl) ?_
    rintro _ rfl
    exact .pure rfl
  | linked declaration schema =>
    rw [projectShape]
    refine .bind (each declaration List.mem_cons_self) ?_
    rintro _ rfl
    refine .bind (each schema (List.mem_cons_of_mem _ List.mem_cons_self)) ?_
    rintro _ rfl
    exact .pure rfl
  | _ =>
    rw [projectShape_leaf rfl]
    exact .pure rfl

-- By the size of the node: what is normal has no parents, so no other definition is entered.
theorem node_stays {level : List String} {known : String → Prop}
    (decided : ∀ (scope : Scope) name, scope.projecting = level → known name →
      Inquiry.Ends J (fun _ => False) (· = true) (isPresent r v scope name))
    (n : Node) (normal : n.Each Node.Normal) (refers : n.RefersTo known) (scope : Scope) (at_ : scope.projecting = level) :
    Stays r v J scope n := by
  have ⟨⟨free, proper, tidy⟩, below⟩ := Node.each_iff.1 normal
  have ⟨named, within⟩ := Node.each_iff.1 refers
  have each : ∀ c ∈ n.children, Stays r v J scope c := fun c child =>
    node_stays decided c (below c child) (within c child) scope at_
  unfold Stays
  rw [projectNode_eq, if_pos (free ▸ Restriction.includes_unrestricted v)]
  refine .bind (shape_stays tidy (fun name shape => decided scope name at_ (named name shape)) each) ?_
  rintro _ rfl
  refine .pure ?_
  obtain ⟨shape, annotations, optionality, restriction, misuse⟩ := n
  cases free
  cases proper
  rfl
termination_by sizeOf n
decreasing_by exact Node.sizeOf_child child

end

namespace Registry
variable {r : Registry} {v : Variant}

theorem present_sturdy (unlinked : r.Unlinked) (sturdy : r.Sturdy v) {scope : Scope} (outermost : scope.projecting = [])
    (exists_ : name ∈ r.existing v) :
    Inquiry.Ends (fun t : Trail => t.memory.Informed r) (fun _ => False) (· = true) (isPresent r v scope name) := by
  have inside : (Node.referenceTo name).restriction.includes v := Restriction.includes_unrestricted v
  have near : r.exactness.near v scope.projecting (Node.referenceTo name) := outermost ▸ r.exactness.start
  have busy : ∀ b ∈ scope.projecting, b ∈ r.names := outermost ▸ List.forall_mem_nil _
  refine Inquiry.Ends.intro fun t informed => ?_
  obtain ⟨present, t', ran⟩ := presence_sturdy unlinked sturdy scope _ name near busy inside rfl (registered_of_existing exists_) t informed
  have ⟨after, exactly, _⟩ := presence_informed unlinked near busy inside rfl informed ran
  rw [ran]
  exact ⟨after, exactly.2 exists_⟩

theorem project_again (unlinked : r.Unlinked) (sturdy : r.Sturdy v) (definition : String) {n : Node}
    (normal : n.Each Node.Normal)
    (refers : n.RefersTo (· ∈ r.existing v)) {m : Memory} (informed : m.Informed r) :
    (r.project definition n v m).1 = .ok (some n) ∧ (r.project definition n v m).2.Informed r := by
  have stays : Stays r v (fun t => t.memory.Informed r) (.start definition []) n :=
    node_stays (fun scope name outermost exists_ => present_sturdy unlinked sturdy outermost exists_) n normal refers _ rfl
  have ⟨after, came⟩ := Inquiry.Ends.elim stays (s := ⟨m, false⟩) informed
  rw [project_eq]
  unfold Probe.alone
  dsimp only
  revert after came
  rcases projectNode r v (.start definition []) n ⟨m, false⟩ with ⟨e | out, t⟩ <;> intro after came
  · exact came.elim
  · exact ⟨congrArg Except.ok came, after⟩

end Registry
end TwinShape
