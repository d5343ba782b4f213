import TwinShape.Proofs.InPlace.Projection
import TwinShape.Proofs.Variation.Survey

namespace TwinShape
namespace InPlace

def projectDefinition (r : Registry) (depth : Nat) (name : String) (v : Variant) : Probing (Option Node) := do
  let target ← ask (r.resolve name)
  descend r v depth (.start name) target.val

def both (first next : Descent Cells Contrast) : Descent Cells Contrast :=
  first.andThen fun
    | .differs => .told .differs
    | .alike leaned => next.andThen fun
      | .differs => .told .differs
      | .alike too => .told (.alike (leaned || too))

section
-- How a definition is compared that has to be entered.
variable (enter : String → Descent Cells Contrast)

mutual
def walk : Node → Descent Cells Contrast
  | ⟨shape, _, _, restriction, _⟩ => if restriction.isRestricted then .told .differs else walkShape shape

def walkShape : Shape Node → Descent Cells Contrast
  | .object ⟨properties, additional, parents⟩ =>
    both (walkProperties properties) (both (walkAdditional additional) (walkNodes parents))
  | .array item => walk item
  | .union members => walkNodes members
  | .linked declaration schema => both (walk declaration) (walk schema)
  | .reference name => enter name
  | _ => .told (.alike false)

def walkProperties : List (Property Node) → Descent Cells Contrast
  | [] => .told (.alike false)
  | ⟨_, value, restriction⟩ :: rest =>
    if restriction.isRestricted then .told .differs else both (walk value) (walkProperties rest)

def walkAdditional : Additional Node → Descent Cells Contrast
  | .forbidden | .allowed => .told (.alike false)
  | .shape n => walk n

def walkNodes : List Node → Descent Cells Contrast
  | [] => .told (.alike false)
  | n :: rest => both (walk n) (walkNodes rest)
end
end

def projectionsDiffer (r : Registry) (depth : Nat) (name : String) : Descent Cells Bool :=
  Descent.andThen (projectDefinition r depth name .internal) fun internal =>
    Descent.andThen (projectDefinition r depth name .external) fun external =>
      Descent.told (match internal, external with
        | .ok i, .ok e => !sameOption Node.same i e
        | _, _ => false)

-- The outcome for a node, and where that is alike, for the two projections of its definition.
def compare (r : Registry) (depth : Nat) (name : String) (walked : Descent Cells Contrast) : Descent Cells Contrast :=
  walked.andThen fun
    | .differs => .told .differs
    | .alike leaned => (projectionsDiffer r depth name).andThen fun apart =>
      .told (if apart then .differs else .alike leaned)

def definitionDiffers (r : Registry) : Nat → String → Descent Cells Contrast
  | 0, _ => .giveUp
  | depth + 1, name => fun c =>
    match c.memory.recallVariation name with
    | some true => some (.differs, c)
    | some false => some (.alike false, c)
    | none =>
      if name ∈ c.checking then some (.alike true, c)
      else match r.resolve name c.memory with
        | (.error _, m) => some (.alike false, { c with memory := m })
        | (.ok target, m) =>
          (compare r depth name (walk (definitionDiffers r depth) target.val)
            { c with memory := m, checking := name :: c.checking }).map fun (outcome, after) =>
              (outcome, { after with
                checking := after.checking.erase name
                memory := after.memory.rememberContrast name outcome })

def differs (r : Registry) (depth : Nat) (name : String) : Descent Cells Bool :=
  (definitionDiffers r depth name).andThen fun contrast => .told contrast.isDifference

-- No presence check is in progress, and these comparisons are.
structure Rest (checking : List String) (m : Memory) (c : Cells) : Prop where
  memory : c.memory = m
  projecting : c.projecting = []
  checking : c.checking = checking

theorem Rest.left {name : String} {checking : List String} {m : Memory} {c : Cells} (rest : Rest (name :: checking) m c)
    (outcome : Contrast) : Rest checking (m.rememberContrast name outcome)
      { c with checking := c.checking.erase name, memory := c.memory.rememberContrast name outcome } := by
  refine ⟨by rw [rest.memory], rest.projecting, ?_⟩
  rw [rest.checking]
  exact List.erase_cons_head _ _

def projectionDepth (r : Registry) : Nat := (r.definitions.length + 1) * (r.definitions.length + 1)

section
variable {r : Registry} {checking : List String} {depth : Nat}

theorem ask_rests (q : Question α) : Mirrors (Rest checking) q (ask q) := by
  intro m c rest
  refine ⟨{ c with memory := (q c.memory).2 }, ?_, ?_⟩
  · unfold ask Attempt.ask
    rw [rest.memory]
  · rw [rest.memory]
    exact ⟨rfl, rest.projecting, rest.checking⟩

theorem project_rests (enough : projectionDepth r ≤ depth) (definition : String) (n : Node) (v : Variant) :
    Mirrors (Rest checking) (r.project definition n v) (descend r v depth (.start definition) n) := by
  intro m c rest
  have room : r.unvisited [] * (r.definitions.length + 1) + r.unvisited [definition] < depth := by
    have first := unvisited_le r []
    have second := unvisited_le r [definition]
    have wide := Nat.mul_le_mul_right (r.definitions.length + 1) first
    unfold projectionDepth at enough
    rw [Nat.succ_mul] at enough
    omega
  have books : Books c false ⟨m, false⟩ c := ⟨rest.memory, rfl, rfl, Nat.le_refl _, by simp⟩
  obtain ⟨after, reached, kept⟩ := descend_steps r v depth (s := .start definition []) rest.projecting room n _ _ books
  exact ⟨after, reached, kept.memory, kept.projecting.trans rest.projecting, kept.checking.trans rest.checking⟩

theorem projectDefinition_rests (enough : projectionDepth r ≤ depth) (name : String) (v : Variant) :
    Mirrors (Rest checking) (r.projectDefinition name v) (projectDefinition r depth name v) :=
  .bind (ask_rests (r.resolve name)) fun target => project_rests enough name target.val v

theorem both_rest {f f' : Memory → Contrast × Memory} {g g' : Descent Cells Contrast}
    (first : Mirrors (Rest checking) f g)
    (next : Mirrors (Rest checking) f' g') : Mirrors (Rest checking) (fun m => Contrast.andThen (f m) f') (both g g') := by
  intro m c rest
  obtain ⟨c', reached, rest'⟩ := first m c rest
  unfold both Descent.andThen Contrast.andThen
  dsimp only
  rw [reached]
  revert rest'
  rcases f m with ⟨_ | leaned, m'⟩ <;> intro rest'
  · exact ⟨c', rfl, rest'⟩
  · obtain ⟨c'', reached', rest''⟩ := next m' c' rest'
    dsimp only
    rw [reached']
    revert rest''
    rcases f' m' with ⟨_ | too, m''⟩ <;> intro rest'' <;> exact ⟨c'', rfl, rest''⟩

variable {enter : String → Descent Cells Contrast}

theorem properties_walk {ps : List (Property Node)}
    (each : ∀ n ∈ ps.map (·.value), Mirrors (Rest checking) (nodeContrast r checking n) (walk enter n)) :
    Mirrors (Rest checking) (propertiesContrast r checking ps) (walkProperties enter ps) := by
  induction ps with
  | nil =>
    rw [walkProperties, show propertiesContrast r checking [] = fun m => (.alike false, m) from funext fun m => by rw [propertiesContrast]]
    exact .told _
  | cons p rest ih =>
    obtain ⟨name, value, restriction⟩ := p
    rw [walkProperties]
    split
    · rename_i restricted
      rw [show propertiesContrast r checking (⟨name, value, restriction⟩ :: rest) = fun m => (.differs, m) from
        funext fun m => by rw [propertiesContrast, if_pos restricted]]
      exact .told _
    · rename_i free
      rw [show propertiesContrast r checking (⟨name, value, restriction⟩ :: rest) = fun m =>
          Contrast.andThen (nodeContrast r checking value m) (propertiesContrast r checking rest) from
        funext fun m => by rw [propertiesContrast, if_neg free]]
      exact both_rest (each value List.mem_cons_self) (ih fun n member => each n (List.mem_cons_of_mem _ member))

theorem nodes_walk {ns : List Node} (each : ∀ n ∈ ns, Mirrors (Rest checking) (nodeContrast r checking n) (walk enter n)) :
    Mirrors (Rest checking) (nodesContrast r checking ns) (walkNodes enter ns) := by
  induction ns with
  | nil =>
    rw [walkNodes, show nodesContrast r checking [] = fun m => (.alike false, m) from funext fun m => by rw [nodesContrast]]
    exact .told _
  | cons n rest ih =>
    rw [walkNodes, show nodesContrast r checking (n :: rest) = fun m =>
        Contrast.andThen (nodeContrast r checking n m) (nodesContrast r checking rest) from
      funext fun m => by rw [nodesContrast]]
    exact both_rest (each n List.mem_cons_self) (ih fun m member => each m (List.mem_cons_of_mem _ member))

theorem node_walk (entered : ∀ name, Mirrors (Rest checking) (definitionContrast r checking name) (enter name))
    (n : Node) :
    Mirrors (Rest checking) (nodeContrast r checking n) (walk enter n) := by
  induction n using Node.tree_induction with
  | node n each =>
    obtain ⟨shape, annotations, optionality, restriction, misuse⟩ := n
    change ∀ c ∈ shape.children, _ at each
    have shapes : Mirrors (Rest checking) (shapeContrast r checking shape) (walkShape enter shape) := by
      cases shape with
      | object o =>
        obtain ⟨properties, additional, parents⟩ := o
        have own := fun c member => each c (List.mem_append_left _ member)
        have further : Mirrors (Rest checking) (additionalContrast r checking additional) (walkAdditional enter additional) := by
          cases additional with
          | shape n =>
            rw [walkAdditional, funext fun m => additionalContrast.eq_def r checking (.shape n) m]
            exact own n (List.mem_append_right _ List.mem_cons_self)
          | _ =>
            intro m c rest
            rw [additionalContrast, walkAdditional]
            exact ⟨c, rfl, rest⟩
        rw [walkShape, funext fun m => shapeContrast.eq_def r checking (.object ⟨properties, additional, parents⟩) m]
        refine both_rest (properties_walk fun c member => own c (List.mem_append_left _ member)) ?_
        exact both_rest further (nodes_walk fun c member => each c (List.mem_append_right _ member))
      | array item =>
        rw [walkShape, funext fun m => shapeContrast.eq_def r checking (.array item) m]
        exact each item List.mem_cons_self
      | union members =>
        rw [walkShape, funext fun m => shapeContrast.eq_def r checking (.union members) m]
        exact nodes_walk each
      | linked declaration schema =>
        rw [walkShape, funext fun m => shapeContrast.eq_def r checking (.linked declaration schema) m]
        exact both_rest (each declaration List.mem_cons_self) (each schema (List.mem_cons_of_mem _ List.mem_cons_self))
      | reference name =>
        rw [walkShape, funext fun m => shapeContrast.eq_def r checking (.reference name) m]
        exact entered name
      | _ =>
        intro m c rest
        rw [shapeContrast, walkShape] <;> first | exact ⟨c, rfl, rest⟩ | simp
    rw [walk, funext fun m => nodeContrast.eq_def r checking ⟨shape, annotations, optionality, restriction, misuse⟩ m]
    dsimp only
    split
    · exact .told _
    · exact shapes

theorem projectionsDiffer_rests (enough : projectionDepth r ≤ depth) (name : String) :
    Mirrors (Rest checking) (TwinShape.projectionsDiffer r name) (projectionsDiffer r depth name) := by
  intro m c rest
  obtain ⟨c', reached, rest'⟩ := projectDefinition_rests enough name .internal m c rest
  obtain ⟨c'', reached', rest''⟩ := projectDefinition_rests enough name .external _ c' rest'
  refine ⟨c'', ?_, ?_⟩
  · unfold projectionsDiffer Descent.andThen
    rw [projectionsDiffer_eq, reached]
    dsimp only
    rw [reached']
    rfl
  · rw [projectionsDiffer_eq]
    exact rest''

-- Each definition that is compared leaves fewer to compare; two projections end each comparison.
theorem definition_rests (depth : Nat) (enough : r.unvisited checking + projectionDepth r < depth) (name : String) :
    Mirrors (Rest checking) (definitionContrast r checking name) (definitionDiffers r depth name) := by
  induction depth generalizing checking name with
  | zero => exact absurd enough (Nat.not_lt_zero _)
  | succ depth ih =>
    intro m c rest
    obtain ⟨rfl, projecting, rfl⟩ := rest
    rw [definitionContrast_eq]
    unfold definitionDiffers
    cases c.memory.recallVariation name with
    | some known => cases known <;> exact ⟨c, rfl, rfl, projecting, rfl⟩
    | none =>
      dsimp only
      by_cases busy : name ∈ c.checking
      · rw [if_pos busy, if_pos busy]
        exact ⟨c, rfl, rfl, projecting, rfl⟩
      · rw [if_neg busy, if_neg busy]
        rcases r.resolve name c.memory with ⟨e | target, m₁⟩
        · exact ⟨_, rfl, rfl, projecting, rfl⟩
        · have fewer := r.unvisited_cons_lt (r.mem_names_of_find? target.property) busy
          dsimp only
          have below : ∀ other, Mirrors (Rest (name :: c.checking)) (definitionContrast r (name :: c.checking) other)
            (definitionDiffers r depth other) := ih (by omega)
          obtain ⟨c₁, walked, rest₁⟩ := node_walk below target.val m₁
            { c with memory := m₁, checking := name :: c.checking } ⟨rfl, projecting, rfl⟩
          unfold compare Descent.andThen
          rw [walked]
          revert rest₁
          rcases nodeContrast r (name :: c.checking) target.val m₁ with ⟨_ | leaned, m₂⟩ <;> intro rest₁
          · exact ⟨_, rfl, rest₁.left .differs⟩
          · have room : projectionDepth r ≤ depth := by omega
            obtain ⟨c₂, told, rest₂⟩ := projectionsDiffer_rests room name m₂ c₁ rest₁
            unfold settleContrast
            dsimp only
            rw [told]
            exact ⟨_, rfl, rest₂.left _⟩

theorem differs_rests (enough : r.definitions.length + projectionDepth r < depth) (name : String) :
    Mirrors (Rest []) (r.differs name) (differs r depth name) :=
  .andThen (definition_rests depth (Nat.lt_of_le_of_lt (Nat.add_le_add_right (unvisited_le r []) _) enough) name)
    fun contrast => .told contrast.isDifference

end
end InPlace
end TwinShape
