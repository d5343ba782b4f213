import TwinShape.Proofs.Projection.Completeness
import TwinShape.Proofs.Variation.Reach

namespace TwinShape

-- A definition from which nothing restricted can be come to. Its two shapes are the same.
def Registry.CleanName (r : Registry) (name : String) : Prop := ∀ n, r.Resolves name n → r.Clean [] n

theorem Registry.cleanName_iff {r : Registry} :
    r.CleanName name ↔ ¬∃ x, r.Reaches name x ∧ x.Restricted := by
  constructor
  · intro clean found
    obtain ⟨x, ⟨n, resolves, reach⟩, restricted⟩ := found
    exact clean n resolves x reach restricted
  · intro none_ n resolves x reach restricted
    exact none_ ⟨x, ⟨n, resolves, reach⟩, restricted⟩

section
variable {r : Registry} {v : Variant} {n : Node}

theorem Registry.Clean.includes (clean : r.Clean [] n) (w : Variant) : n.restriction.includes w := by
  rw [clean.restriction]
  rfl

theorem Registry.Clean.names (clean : r.Clean [] n) (shape : n.shape = .reference name) : r.CleanName name :=
  fun _ resolves => clean.target shape resolves

-- A clean node is present in both variants or in none.
theorem Node.Present.across {P Q : String → Prop} (present : n.Present v P) (w : Variant) (clean : r.Clean [] n)
    (step : ∀ name, r.CleanName name → P name → Q name) : n.Present w Q := by
  induction present with
  | object _ shape => exact .object (clean.includes w) shape
  | array _ shape _ ih =>
    exact .array (clean.includes w) shape (ih (clean.child (Node.child_of_shape shape List.mem_cons_self)))
  | union _ shape member _ ih =>
    exact .union (clean.includes w) shape member (ih (clean.child (Node.child_of_shape shape member)))
  | linked _ shape _ _ first second =>
    refine .linked (clean.includes w) shape (first (clean.child (Node.child_of_shape shape ?_)))
      (second (clean.child (Node.child_of_shape shape ?_)))
    · exact List.mem_cons_self
    · exact List.mem_cons_of_mem _ List.mem_cons_self
  | reference _ shape target => exact .reference (clean.includes w) shape (step _ (clean.names shape) target)
  | leaf _ bare => exact .leaf (clean.includes w) bare

theorem Registry.existing_across (w : Variant) (clean : r.CleanName name) (exists_ : name ∈ r.existing v) :
    name ∈ r.existing w := by
  have supports : {name | r.CleanName name ∧ name ∈ r.existing v} ⊆ r.existing w := by
    refine subset_existing ?_
    rintro name ⟨clean, exists_⟩
    obtain ⟨n, resolves, present⟩ := mem_existing_iff.1 exists_
    exact ⟨n, resolves, present.across w (clean n resolves) fun other clean' here => ⟨clean', here⟩⟩
  exact supports ⟨clean, exists_⟩

theorem Projects.across {answer answer' : String → Bool → Prop} {out : Option Node}
    (projects : Projects r v answer n out)
    (w : Variant) (clean : r.Clean [] n) (step : ∀ name present, r.CleanName name → answer name present → answer' name present) :
    Projects r w answer' n out := by
  induction projects with
  | outside out =>
    rw [Node.outside, clean.includes v] at out
    cases out
  | leaf _ bare => exact .leaf (clean.includes w) bare
  | kept _ shape answered => exact .kept (clean.includes w) shape (step _ _ (clean.names shape) answered)
  | dropped _ shape answered => exact .dropped (clean.includes w) shape (step _ _ (clean.names shape) answered)
  | array _ shape _ ih =>
    exact .array (clean.includes w) shape (ih (clean.child (Node.child_of_shape shape List.mem_cons_self)))
  | union _ members shape _ ih =>
    refine .union (clean.includes w) members shape fun m member => ih m member (clean.child (Node.child_of_shape shape ?_))
    exact List.mem_map_of_mem member
  | linked _ shape _ _ first second =>
    refine .linked (clean.includes w) shape (first (clean.child (Node.child_of_shape shape ?_)))
      (second (clean.child (Node.child_of_shape shape ?_)))
    · exact List.mem_cons_self
    · exact List.mem_cons_of_mem _ List.mem_cons_self
  | @object merged inherited rest n additional _ parents properties shape sources _ gathered _ _ outcomes own further =>
    have below := fun c child => clean.child (Node.child_of_shape (c := c) shape child)
    have written : ∀ p ∈ parents, r.Clean [] p.written := fun p parent =>
      below _ (List.mem_append_right _ (List.mem_map_of_mem parent))
    have free : ∀ p ∈ properties, p.1.restriction = .unrestricted := fun p inside =>
      clean.property shape (List.mem_map_of_mem inside)
    have remains : properties.filterMap (fun p => p.1.remains v p.2) = properties.filterMap fun p => p.1.remains w p.2 := by
      refine List.filterMap_congr fun p inside => ?_
      unfold Property.remains
      rw [free p inside]
      rfl
    rw [remains]
    have sources' : ∀ p ∈ parents, r.Merges w p.written p.source ∧ r.Clean [] p.source := by
      intro p parent
      have merges := sources p parent
      have here := written p parent
      generalize p.written = written, p.source = source at merges here
      cases merges with
      | inline unnamed => exact ⟨.inline unnamed, here⟩
      | outside out =>
        rw [Node.outside, here.includes v] at out
        cases out
      | named _ shape resolves => exact ⟨.named (here.includes w) shape resolves, here.target shape resolves⟩
    refine .object (clean.includes w) parents properties shape (fun p parent => (sources' p parent).1)
      (fun p parent => outcomes p parent (sources' p parent).2) gathered (fun p inside _ => ?_) fun m member => ?_
    · refine own p inside (by rw [free p inside]; rfl) (below _ (List.mem_append_left _ (List.mem_append_left _ ?_)))
      exact List.mem_map_of_mem (List.mem_map_of_mem inside)
    · exact further m member (below m (List.mem_append_left _ (List.mem_append_right _ member)))

end

-- A projection of a definition that loses nothing: it drops a reference only if the
-- definition that it names does not exist.
def Registry.Shows (r : Registry) (v : Variant) (name : String) (out : Option Node) : Prop :=
  ∃ n, r.Resolves name n ∧ Projects r v (r.Rightly v) n out

theorem Registry.Shows.across {r : Registry} {v : Variant} (shows_ : r.Shows v name out) (w : Variant)
    (clean : r.CleanName name) : r.Shows w name out := by
  obtain ⟨n, resolves, projects⟩ := shows_
  refine ⟨n, resolves, projects.across w (clean n resolves) fun other present clean' right none_ exists_ => ?_⟩
  exact right none_ (existing_across v clean' exists_)

end TwinShape
