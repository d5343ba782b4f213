import TwinShape.Proofs.Node.Tree
import TwinShape.Proofs.Registry.Resolution
import TwinShape.Variation

namespace TwinShape

-- A part of a node, with the restriction that it stands under beside its own.
abbrev Piece := Restriction × Node

def freePieces (nodes : List Node) : List Piece := nodes.map fun n => (.unrestricted, n)

def propertyPieces (properties : List (Property Node)) : List Piece :=
  properties.map fun p => (p.restriction, p.value)

-- What a comparison looks into, in its order.
def Shape.pieces : Shape Node → List Piece
  | .object o => propertyPieces o.properties ++ (freePieces o.additional.nodes ++ freePieces o.parents)
  | s => freePieces s.children

def Node.pieces (n : Node) : List Piece := n.shape.pieces

theorem Shape.pieces_children (s : Shape Node) : s.pieces.map (·.2) = s.children := by
  have free : ∀ nodes : List Node, (freePieces nodes).map (·.2) = nodes := by
    intro nodes
    rw [freePieces, List.map_map]
    exact List.map_id _
  have owned : ∀ properties : List (Property Node),
      (propertyPieces properties).map (·.2) = properties.map (·.value) := by
    intro properties
    rw [propertyPieces, List.map_map]
    rfl
  cases s with
  | object o =>
    simp only [pieces, children, List.map_append, free, owned, List.append_assoc]
  | _ => exact free _

theorem Node.mem_children_of_piece {n : Node} {p : Piece} (inside : p ∈ n.pieces) : p.2 ∈ n.children := by
  unfold Node.children
  rw [← Shape.pieces_children]
  exact List.mem_map_of_mem inside

theorem Node.exists_piece {n c : Node} (child : c ∈ n.children) : ∃ p ∈ n.pieces, p.2 = c := by
  unfold Node.children at child
  rw [← Shape.pieces_children] at child
  exact List.mem_map.1 child

def contrastAll (r : Registry) (checking : List String) (pieces : List Piece) (m : Memory) :
    Contrast × Memory :=
  match pieces with
  | [] => (.alike false, m)
  | (restriction, n) :: rest =>
    if restriction.isRestricted then (.differs, m)
    else Contrast.andThen (nodeContrast r checking n m) (contrastAll r checking rest)

namespace Contrast

theorem andThen_idle (x : Contrast × Memory) : andThen x (fun m => (.alike false, m)) = x := by
  obtain ⟨_ | leaned, m⟩ := x
  · rfl
  · exact congrArg (fun b => (Contrast.alike b, m)) (Bool.or_false leaned)

theorem andThen_first (m : Memory) (next : Memory → Contrast × Memory) :
    andThen (.alike false, m) next = next m := by
  unfold andThen
  dsimp only
  rcases next m with ⟨_ | leaned, m'⟩
  · rfl
  · exact congrArg (fun b => (Contrast.alike b, m')) (Bool.false_or leaned)

theorem andThen_assoc (x : Contrast × Memory) (f g : Memory → Contrast × Memory) :
    andThen (andThen x f) g = andThen x fun m => andThen (f m) g := by
  obtain ⟨_ | leaned, m⟩ := x
  · rfl
  · unfold andThen
    dsimp only
    rcases f m with ⟨_ | too, m'⟩
    · rfl
    · dsimp only
      rcases g m' with ⟨_ | further, m''⟩
      · rfl
      · exact congrArg (fun b => (Contrast.alike b, m'')) (Bool.or_assoc _ _ _)

end Contrast

section
variable (r : Registry) (checking : List String)

theorem contrastAll_append (first second : List Piece) (m : Memory) :
    contrastAll r checking (first ++ second) m =
      Contrast.andThen (contrastAll r checking first m) (contrastAll r checking second) := by
  induction first generalizing m with
  | nil => exact (Contrast.andThen_first _ _).symm
  | cons piece rest ih =>
    obtain ⟨restriction, n⟩ := piece
    rw [List.cons_append, contrastAll, contrastAll]
    split
    · rfl
    · rw [Contrast.andThen_assoc]
      exact congrArg _ (funext ih)

theorem nodesContrast_pieces (nodes : List Node) (m : Memory) :
    nodesContrast r checking nodes m = contrastAll r checking (freePieces nodes) m := by
  induction nodes generalizing m with
  | nil => rw [nodesContrast]; rfl
  | cons n rest ih =>
    rw [nodesContrast]
    exact congrArg _ (funext ih)

theorem propertiesContrast_pieces (properties : List (Property Node)) (m : Memory) :
    propertiesContrast r checking properties m = contrastAll r checking (propertyPieces properties) m := by
  induction properties generalizing m with
  | nil => rw [propertiesContrast]; rfl
  | cons p rest ih =>
    rw [propertiesContrast]
    change (if _ then _ else _) = if p.restriction.isRestricted then _ else _
    rw [funext ih]
    rfl

theorem additionalContrast_pieces (additional : Additional Node) (m : Memory) :
    additionalContrast r checking additional m = contrastAll r checking (freePieces additional.nodes) m := by
  cases additional with
  | forbidden | allowed => rw [additionalContrast]; rfl
  | shape n =>
    rw [additionalContrast]
    exact (Contrast.andThen_idle _).symm

theorem shapeContrast_pieces {shape : Shape Node} (inner : ∀ name, shape ≠ .reference name) (m : Memory) :
    shapeContrast r checking shape m = contrastAll r checking shape.pieces m := by
  cases shape with
  | object o =>
    obtain ⟨properties, additional, parents⟩ := o
    rw [shapeContrast, Shape.pieces, contrastAll_append, propertiesContrast_pieces]
    refine congrArg _ (funext fun m => ?_)
    rw [contrastAll_append, additionalContrast_pieces]
    exact congrArg _ (funext fun m => nodesContrast_pieces r checking parents m)
  | array item =>
    rw [shapeContrast]
    exact (Contrast.andThen_idle _).symm
  | union members =>
    rw [shapeContrast]
    exact nodesContrast_pieces r checking members m
  | linked declaration schema =>
    rw [shapeContrast]
    exact congrArg _ (funext fun m => (Contrast.andThen_idle _).symm)
  | reference name => exact absurd rfl (inner name)
  | _ =>
    rw [shapeContrast.eq_def]
    rfl

theorem nodeContrast_restricted {n : Node} (restricted : n.restriction.isRestricted) (m : Memory) :
    nodeContrast r checking n m = (.differs, m) := by
  obtain ⟨shape, annotations, optionality, restriction, misuse⟩ := n
  rw [nodeContrast]
  exact if_pos restricted

theorem nodeContrast_free {n : Node} (free : n.restriction.isRestricted = false) (m : Memory) :
    nodeContrast r checking n m = shapeContrast r checking n.shape m := by
  obtain ⟨shape, annotations, optionality, restriction, misuse⟩ := n
  rw [nodeContrast]
  exact if_neg (ne_true_of_eq_false free)

end

-- How the comparison of a definition ends whose node is alike.
def settleContrast (r : Registry) (name : String) (leaned : Bool) (m : Memory) : Contrast × Memory :=
  let (apart, m) := projectionsDiffer r name m
  let contrast := if apart then .differs else .alike leaned
  (contrast, m.rememberContrast name contrast)

theorem projectionsDiffer_eq (r : Registry) (name : String) (m : Memory) :
    projectionsDiffer r name m =
      let internal := r.projectDefinition name .internal m
      let external := r.projectDefinition name .external internal.2
      (match internal.1, external.1 with
        | .ok i, .ok e => !sameOption Node.same i e
        | _, _ => false, external.2) := by
  unfold projectionsDiffer
  rcases r.projectDefinition name .internal m with ⟨e | i, m₁⟩
  · rfl
  · dsimp only
    rcases r.projectDefinition name .external m₁ with ⟨f | o, m₂⟩ <;> rfl

-- What comparisons keep true of what is known, and what their answers say, of nodes and of
-- definitions, while some definitions are being compared. Only nodes that are covered count.
structure Survey (r : Registry) where
  covers : Node → Prop
  memory : Memory → Prop
  node : List String → Node → Contrast → Prop
  definition : List String → String → Contrast → Prop
  child : covers n → c ∈ n.children → covers c
  target : covers n → n.shape = .reference name → r.Resolves name m → covers m
  sound : memory m → m.Sound r
  lean : node checking n (.alike false) → node checking n (.alike true)
  restricted : covers n → n.restriction.isRestricted → node checking n .differs
  apart : covers n → n.restriction.isRestricted = false → p ∈ n.pieces →
    p.1.isRestricted ∨ node checking p.2 .differs → node checking n .differs
  alike : covers n → n.restriction.isRestricted = false → (∀ name, n.shape ≠ .reference name) →
    (∀ p ∈ n.pieces, p.1.isRestricted = false ∧ node checking p.2 (.alike leaned)) →
    node checking n (.alike leaned)
  reference : covers n → n.restriction.isRestricted = false → n.shape = .reference name →
    definition checking name contrast → node checking n contrast
  recalled : memory m → m.recallVariation name = some known →
    definition checking name (if known then .differs else .alike false)
  busy : name ∈ checking → definition checking name (.alike true)
  missing : (∀ n, ¬r.Resolves name n) → definition checking name (.alike false)
  resolve : memory m → memory (r.resolve name m).2
  differs : memory m → r.Resolves name n → covers n → node (name :: checking) n .differs →
    definition checking name .differs ∧ memory (m.rememberContrast name .differs)
  settled : memory m → r.Resolves name n → covers n → node (name :: checking) n (.alike leaned) →
    definition checking name (settleContrast r name leaned m).1 ∧ memory (settleContrast r name leaned m).2

theorem definitionContrast_eq (r : Registry) (checking : List String) (name : String) (m : Memory) :
    definitionContrast r checking name m = match m.recallVariation name with
      | some true => (.differs, m)
      | some false => (.alike false, m)
      | none =>
        if name ∈ checking then (.alike true, m)
        else match r.resolve name m with
          | (.error _, m) => (.alike false, m)
          | (.ok target, m) =>
            match nodeContrast r (name :: checking) target.val m with
            | (.differs, m) => (.differs, m.rememberContrast name .differs)
            | (.alike leaned, m) => settleContrast r name leaned m := by
  rw [definitionContrast]
  cases m.recallVariation name with
  | some known => cases known <;> rfl
  | none =>
    dsimp only
    by_cases busy : name ∈ checking
    · rw [dif_pos busy, if_pos busy]
    · rw [dif_neg busy, if_neg busy]
      rcases r.resolve name m with ⟨fault | ⟨n, found⟩, m⟩ <;> rfl

namespace Survey
variable {r : Registry} (s : Survey r)

def Found (checking : List String) (n : Node) (x : Contrast × Memory) : Prop :=
  s.memory x.2 ∧ s.node checking n x.1

theorem pieces_run (checking : List String) (pieces : List Piece)
    (each : ∀ p ∈ pieces, ∀ m, s.memory m → s.Found checking p.2 (nodeContrast r checking p.2 m))
    (m : Memory) (held : s.memory m) :
    s.memory (contrastAll r checking pieces m).2 ∧
      match (contrastAll r checking pieces m).1 with
      | .differs => ∃ p ∈ pieces, p.1.isRestricted ∨ s.node checking p.2 .differs
      | .alike leaned => ∀ p ∈ pieces, p.1.isRestricted = false ∧ s.node checking p.2 (.alike leaned) := by
  induction pieces generalizing m with
  | nil => exact ⟨held, nofun⟩
  | cons piece rest ih =>
    obtain ⟨restriction, n⟩ := piece
    rw [contrastAll]
    by_cases restricted : restriction.isRestricted
    · rw [if_pos restricted]
      exact ⟨held, _, List.mem_cons_self, .inl restricted⟩
    · rw [if_neg restricted]
      have head := each _ List.mem_cons_self m held
      dsimp only at head
      revert head
      rcases nodeContrast r checking n m with ⟨_ | leaned, m'⟩ <;> intro head
      · exact ⟨head.1, _, List.mem_cons_self, .inr head.2⟩
      · have tail := ih (fun p member => each p (List.mem_cons_of_mem _ member)) m' head.1
        unfold Contrast.andThen
        dsimp only
        revert tail
        rcases contrastAll r checking rest m' with ⟨_ | too, m''⟩ <;> intro tail
        · obtain ⟨kept, p, member, why⟩ := tail
          exact ⟨kept, p, List.mem_cons_of_mem _ member, why⟩
        · refine ⟨tail.1, ?_⟩
          -- Leaning anywhere weakens what every piece says.
          have looser : ∀ {x} {a b : Bool}, s.node checking x (.alike a) → s.node checking x (.alike (a || b)) := by
            intro x a b likeness
            cases a
            · cases b
              · exact likeness
              · exact s.lean likeness
            · exact likeness
          intro p member
          rcases List.mem_cons.1 member with rfl | member
          · exact ⟨eq_false_of_ne_true restricted, looser head.2⟩
          · have ⟨free, likeness⟩ := tail.2 p member
            exact ⟨free, Bool.or_comm too leaned ▸ looser likeness⟩

theorem definition_run (checking : List String) (name : String)
    (covered : ∀ n, r.Resolves name n → s.covers n)
    (target : name ∉ checking → ∀ n, r.Resolves name n → ∀ m, s.memory m →
      s.Found (name :: checking) n (nodeContrast r (name :: checking) n m))
    (m : Memory) (held : s.memory m) :
    s.memory (definitionContrast r checking name m).2 ∧
      s.definition checking name (definitionContrast r checking name m).1 := by
  rw [definitionContrast_eq]
  cases known : m.recallVariation name with
  | some answer =>
    cases answer
    · exact ⟨held, s.recalled held known⟩
    · exact ⟨held, s.recalled held known⟩
  | none =>
    dsimp only
    by_cases busy : name ∈ checking
    · rw [if_pos busy]
      exact ⟨held, s.busy busy⟩
    · rw [if_neg busy]
      have after : s.memory (r.resolve name m).2 := s.resolve held
      have answer := Registry.resolveFrom_answer (s.sound held) name name
      change (r.resolve name m).1 = _ at answer
      revert after answer
      rcases r.resolve name m with ⟨fault | found, m₁⟩ <;> intro after answer
      · refine ⟨after, s.missing fun n resolves => ?_⟩
        rw [Registry.resolution_of_resolves resolves] at answer
        cases answer
      · have resolves := Registry.resolution_ok answer.symm
        have inner := target busy _ resolves m₁ after
        dsimp only
        revert inner
        rcases nodeContrast r (name :: checking) found.val m₁ with ⟨_ | leaned, m₂⟩ <;> intro inner
        · have ⟨said, kept⟩ := s.differs inner.1 resolves (covered _ resolves) inner.2
          exact ⟨kept, said⟩
        · have settled := s.settled inner.1 resolves (covered _ resolves) inner.2
          exact ⟨settled.2, settled.1⟩

theorem node_run (checking : List String) (n : Node) (covered : s.covers n) (m : Memory) (held : s.memory m) :
    s.Found checking n (nodeContrast r checking n m) := by
  cases restricted : n.restriction.isRestricted with
  | true =>
    rw [nodeContrast_restricted _ _ restricted]
    exact ⟨held, s.restricted covered restricted⟩
  | false =>
    rw [nodeContrast_free _ _ restricted]
    by_cases reference : ∃ name, n.shape = .reference name
    · obtain ⟨name, shape⟩ := reference
      rw [shape, shapeContrast]
      have run := s.definition_run checking name
        (fun target resolves => s.target covered shape resolves)
        (fun fresh target resolves m held =>
          node_run (name :: checking) target (s.target covered shape resolves) m held) m held
      exact ⟨run.1, s.reference covered restricted shape run.2⟩
    · have inner : ∀ name, n.shape ≠ .reference name := fun name shape => reference ⟨name, shape⟩
      rw [shapeContrast_pieces _ _ inner]
      have run := s.pieces_run checking n.pieces
        (fun p inside m held =>
          node_run checking p.2 (s.child covered (Node.mem_children_of_piece inside)) m held) m held
      change s.Found checking n (contrastAll r checking n.pieces m)
      revert run
      rcases contrastAll r checking n.pieces m with ⟨_ | leaned, m'⟩ <;> intro run
      · obtain ⟨kept, p, inside, why⟩ := run
        exact ⟨kept, s.apart covered restricted inside why⟩
      · exact ⟨run.1, s.alike covered restricted inner run.2⟩
termination_by (r.unvisited checking, sizeOf n)
decreasing_by
  · exact .left _ _ (r.unvisited_cons_lt (r.mem_names_of_find? resolves.1) fresh)
  · exact .right _ (Node.sizeOf_child (Node.mem_children_of_piece inside))

theorem definition_answer (name : String) (covered : ∀ n, r.Resolves name n → s.covers n)
    (checking : List String) (m : Memory) (held : s.memory m) :
    s.memory (definitionContrast r checking name m).2 ∧
      s.definition checking name (definitionContrast r checking name m).1 :=
  s.definition_run checking name covered (fun _ n resolves m held => s.node_run (name :: checking) n (covered n resolves) m held) m held

end Survey
end TwinShape
