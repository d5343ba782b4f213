import TwinShape.Declaration.Drafting
import TwinShape.Proofs.InPlace.Variation

namespace TwinShape
namespace InPlace

-- Declarations as far as they are written. What is being written shows by its empty place only.
structure Sheet where
  cells : Cells
  slots : Table (Option Declaration)
  imports : Table (List String)

abbrev Writing (α : Type) := Attempt Sheet Fault α

namespace Sheet

def ask (x : Probing α) : Writing α := Descent.within Sheet.cells (fun s c => { s with cells := c }) x

def fill (name : String) (declaration : Option Declaration) : Writing Unit :=
  Attempt.learn fun s => { s with slots := s.slots.set name declaration }

def takeImport (module name : String) : Writing Unit :=
  Attempt.learn fun s =>
    let names := (s.imports.get? module).getD []
    { s with imports := s.imports.set module (if name ∈ names then names else names ++ [name]) }

end Sheet

section
variable (v : Variant)
  -- How a definition is declared that has to be entered.
  (enter : String → Writing (Option String))
  -- The definition that faults are blamed on.
  (definition : String)

mutual
def writeType (depth : Nat) : Node → Writing TypeExpr
  | ⟨shape, _, _, _, _⟩ =>
    match shape with
    | .object ⟨properties, additional, _⟩ => do
      let members ← writeMembers depth properties
      let index ← writeIndex depth additional
      pure (.record members index)
    | .array item => do
      let type ← writeType depth item
      pure (.array type (needsGrouping item))
    | .union options => do
      let types ← writeTypes depth options
      pure (.alternatives (TypeExpr.distinctOptions depth types))
    | .enumeration values _ => pure (.alternatives (values.map .literal))
    | .constant value => pure (.literal value)
    | .string => pure (.keyword "string")
    | .number | .integer => pure (.keyword "number")
    | .boolean => pure (.keyword "boolean")
    | .null => pure (.keyword "null")
    | .reference name => do
      match ← enter name with
      | some declared => pure (.named declared)
      | none => Attempt.fail (.absentInVariant definition name v)
    | .raw declaration _ =>
      match declaration with
      | some text => pure (.verbatim text.content)
      | none => Attempt.fail (.missingRawBackend definition .declarations)
    | .imported name module => do
      Sheet.takeImport module name
      pure (.named name)
    | .linked declaration _ => writeType depth declaration

def writeTypes (depth : Nat) : List Node → Writing (List TypeExpr)
  | [] => pure []
  | n :: rest => do
    let type ← writeType depth n
    let types ← writeTypes depth rest
    pure (type :: types)

def writeMembers (depth : Nat) : List (Property Node) → Writing (List (Member TypeExpr))
  | [] => pure []
  | ⟨name, value, _⟩ :: rest => do
    let type ← writeType (depth + 1) value
    let members ← writeMembers depth rest
    pure (⟨.ofNode value, name, value.isOptional, type⟩ :: members)

def writeIndex (depth : Nat) : Additional Node → Writing (Option TypeExpr)
  | .forbidden => pure none
  | .allowed => pure (some (.keyword "unknown"))
  | .shape n => do
    let type ← writeType (depth + 1) n
    pure (some type)
end

def writeBody : Node → Writing DeclaredAs
  | ⟨.object ⟨properties, additional, _⟩, _, _, _, _⟩ => do
    let members ← writeMembers v enter definition 0 properties
    let index ← writeIndex v enter definition 0 additional
    pure (.interface members index)
  | ⟨.enumeration values (some naming), _, _, _, _⟩ =>
    pure (.enumeration (values.map fun value => (naming.symbol value, value)))
  | n => do
    let type ← writeType v enter definition 0 n
    pure (.alias_ type)
end

def isApart (r : Registry) (depth : Nat) (name : String) : Variant → Descent Cells Bool
  | .external => .told false
  | .internal => differs r depth name

-- The place of a declaration is taken before its body is written.
def ensureDeclared (r : Registry) (suffix : String) (v : Variant) : Nat → String → Writing (Option String)
  | 0, _ => Descent.giveUp
  | depth + 1, name => do
    let apart ← Sheet.ask (Attempt.ofTotal (isApart r depth name v))
    let declared := declaredName suffix name apart
    let sheet ← Attempt.read
    if sheet.slots.has declared then pure (some declared)
    else do
      let target ← Sheet.ask (ask (r.resolve name))
      match ← Sheet.ask (descend r v depth (.start name) target.val) with
      | none => pure none
      | some n => do
        Sheet.fill declared none
        let body ← writeBody v (ensureDeclared r suffix v depth) name n
        Sheet.fill declared (some ⟨declared, .ofNode n, body⟩)
        pure (some declared)

def ensureAllDeclared (r : Registry) (suffix : String) (depth : Nat) : List String → Writing Unit
  | [] => pure ()
  | name :: rest => do
    let _ ← ensureDeclared r suffix .external depth name
    let apart ← Sheet.ask (Attempt.ofTotal (differs r depth name))
    if apart then do
      let _ ← ensureDeclared r suffix .internal depth name
      ensureAllDeclared r suffix depth rest
    else ensureAllDeclared r suffix depth rest

def declarationsFor (r : Registry) (depth : Nat) (names : List String) (suffix : String) :
    Probing DeclarationDocument := fun c =>
  (ensureAllDeclared r suffix depth names ⟨c, [], []⟩).map fun
    | (.ok (), s) => (.ok ⟨s.imports, s.slots.filterMap (·.2)⟩, s.cells)
    | (.error fault, s) => (.error fault, s.cells)

-- A sheet is where a draft is, and all that is being written has a place.
structure Sheet.Matches (writing : List String) (d : Draft) (s : Sheet) : Prop where
  rest : Rest [] d.memory s.cells
  slots : s.slots = d.slots
  imports : s.imports = d.imports
  begun : ∀ name ∈ writing, d.slots.has name

def declarationDepth (r : Registry) : Nat := projectionDepth r + r.definitions.length + 1

section
variable {r : Registry} {s : DraftScope} {enter : String → Writing (Option String)} {depth : Nat} {writing : List String}

abbrev Writes (writing : List String) (x : Drafting α) (y : Writing α) : Prop := Mirrors (Sheet.Matches writing) x y

theorem ask_matches {q : Question α} {x : Probing α} (both : Mirrors (Rest []) q x) :
    Writes writing (Drafting.ask q) (Sheet.ask x) := by
  intro d s held
  obtain ⟨c, reached, rest⟩ := both d.memory s.cells held.rest
  refine ⟨{ s with cells := c }, ?_, rest, held.slots, held.imports, held.begun⟩
  unfold Sheet.ask Descent.within Drafting.ask Inquiry.within
  rw [reached]
  rfl

theorem import_matches (module name : String) :
    Writes writing (Drafting.takeImport module name) (Sheet.takeImport module name) := by
  intro d s held
  refine ⟨_, rfl, held.rest, held.slots, ?_, held.begun⟩
  unfold Drafting.takeImport Inquiry.learn
  dsimp only
  rw [held.imports]

theorem Sheet.Matches.filled {d : Draft} {s : Sheet} (held : Sheet.Matches writing d s) (name : String)
    (declaration : Option Declaration) :
    Sheet.Matches (name :: writing) { d with slots := d.slots.set name declaration } { s with slots := s.slots.set name declaration } := by
  refine ⟨held.rest, congrArg (fun slots => slots.set name declaration) held.slots, held.imports, ?_⟩
  intro other member
  exact Table.has_set _ _ _ _ ((List.mem_cons.1 member).imp_right (held.begun other))

theorem Sheet.Matches.fewer {d : Draft} {s : Sheet} {name : String} (held : Sheet.Matches (name :: writing) d s) :
    Sheet.Matches writing d s :=
  ⟨held.rest, held.slots, held.imports, fun other member => held.begun other (List.mem_cons_of_mem _ member)⟩

theorem fill_matches (name : String) (declaration : Option Declaration) :
    Writes writing (Drafting.fill name declaration) (Sheet.fill name declaration) :=
  fun _ _ held => ⟨_, rfl, (held.filled name declaration).fewer⟩

theorem begin_matches {name : String} {x : Drafting α} {y : Writing α} (both : Writes (name :: writing) x y) :
    Writes writing (Drafting.fill name none >>= fun _ => x) (Sheet.fill name none >>= fun _ => y) := by
  intro d s held
  obtain ⟨s', reached, held'⟩ := both _ _ (held.filled name none)
  exact ⟨s', reached, held'.fewer⟩

theorem types_matches {ns : List Node}
    (each : ∀ n ∈ ns, Writes writing (typeOf r s depth n) (writeType s.variant enter s.definition depth n)) :
    Writes writing (typesOf r s depth ns) (writeTypes s.variant enter s.definition depth ns) := by
  induction ns with
  | nil =>
    rw [typesOf, writeTypes]
    exact .pure []
  | cons n rest ih =>
    rw [typesOf, writeTypes]
    refine .bind (each n List.mem_cons_self) fun type => ?_
    exact .bind (ih fun m member => each m (List.mem_cons_of_mem _ member)) fun types => .pure _

theorem members_matches {ps : List (Property Node)}
    (each : ∀ n ∈ ps.map (·.value), Writes writing (typeOf r s (depth + 1) n) (writeType s.variant enter s.definition (depth + 1) n)) :
    Writes writing (TwinShape.membersOf r s depth ps) (writeMembers s.variant enter s.definition depth ps) := by
  induction ps with
  | nil =>
    rw [TwinShape.membersOf, writeMembers]
    exact .pure []
  | cons p rest ih =>
    rw [TwinShape.membersOf, writeMembers]
    refine .bind (each p.value List.mem_cons_self) fun type => ?_
    exact .bind (ih fun m member => each m (List.mem_cons_of_mem _ member)) fun members => .pure _

theorem index_matches {additional : Additional Node}
    (each : ∀ n ∈ additional.nodes, Writes writing (typeOf r s (depth + 1) n) (writeType s.variant enter s.definition (depth + 1) n)) :
    Writes writing (indexOf r s depth additional) (writeIndex s.variant enter s.definition depth additional) := by
  cases additional with
  | forbidden =>
    rw [indexOf, writeIndex]
    exact .pure none
  | allowed =>
    rw [indexOf, writeIndex]
    exact .pure _
  | shape n =>
    rw [indexOf, writeIndex]
    exact .bind (each n List.mem_cons_self) fun type => .pure _

theorem type_matches (entered : ∀ name, Writes writing (declare r s name) (enter name)) (n : Node) (depth : Nat) :
    Writes writing (typeOf r s depth n) (writeType s.variant enter s.definition depth n) := by
  induction n using Node.tree_induction generalizing depth with
  | node n each =>
    obtain ⟨shape, annotations, optionality, restriction, misuse⟩ := n
    change ∀ c ∈ shape.children, _ at each
    cases shape with
    | object o =>
      obtain ⟨properties, additional, parents⟩ := o
      have own := fun c member => each c (List.mem_append_left _ member)
      rw [typeOf, writeType]
      refine .bind (members_matches fun c member => own c (List.mem_append_left _ member) _) fun members => ?_
      exact .bind (index_matches fun c member => own c (List.mem_append_right _ member) _) fun index => .pure _
    | array item =>
      rw [typeOf, writeType]
      exact .bind (each item List.mem_cons_self _) fun type => .pure _
    | union members =>
      rw [typeOf, writeType]
      exact .bind (types_matches fun c member => each c member _) fun types => .pure _
    | reference name =>
      rw [typeOf, writeType]
      refine .bind (entered name) fun found => ?_
      cases found with
      | none => exact .fail _
      | some declared => exact .pure _
    | raw declaration schema =>
      cases declaration <;> rw [typeOf, writeType]
      · exact .fail _
      · exact .pure _
    | imported name module =>
      rw [typeOf, writeType]
      exact .bind (import_matches module name) fun _ => .pure _
    | linked declaration schema =>
      rw [typeOf, writeType]
      exact each declaration List.mem_cons_self _
    | _ =>
      rw [typeOf, writeType]
      exact .pure _

theorem body_matches (entered : ∀ name, Writes writing (declare r s name) (enter name)) (n : Node) :
    Writes writing (bodyOf r s n) (writeBody s.variant enter s.definition n) := by
  have whole := type_matches entered
  rw [bodyOf.eq_def]
  split
  · rw [writeBody]
    refine .bind (members_matches fun c _ => whole c _) fun members => ?_
    exact .bind (index_matches fun c _ => whole c _) fun index => .pure _
  · rw [writeBody]
    exact .pure _
  · rw [writeBody]
    · exact .bind (whole _ 0) fun type => .pure _
    all_goals assumption

theorem apart_matches (enough : r.definitions.length + projectionDepth r < depth) (name : String) (v : Variant) :
    Writes writing (Drafting.ask (Inquiry.ofTotal (r.isApart name v)))
      (Sheet.ask (Attempt.ofTotal (isApart r depth name v))) := by
  refine ask_matches (.ofTotal ?_)
  cases v with
  | external => exact .told false
  | internal => exact differs_rests enough name

-- Each declaration that is begun leaves fewer to begin.
theorem declare_matches (depth : Nat) (enough : s.unwritten r + declarationDepth r < depth) (name : String) :
    Writes s.writing (declare r s name) (ensureDeclared r s.suffix s.variant depth name) := by
  induction depth generalizing s name with
  | zero => exact absurd enough (Nat.not_lt_zero _)
  | succ depth ih =>
    unfold declarationDepth at enough
    have room : r.definitions.length + projectionDepth r < depth := by omega
    rw [declare, ensureDeclared]
    refine .bind (apart_matches room name s.variant) fun apart => ?_
    let declared := declaredName s.suffix name apart
    refine .inspect fun d sheet held => ?_
    -- Whatever is being written has a place.
    have taken_iff : declared ∈ s.writing ∨ d.slots.has declared ↔ sheet.slots.has declared := by
      rw [held.slots]
      exact ⟨fun taken => taken.elim (held.begun _) id, .inr⟩
    by_cases taken : sheet.slots.has declared
    · rw [dif_pos (taken_iff.2 taken), if_pos taken]
      exact .pure _
    · rw [dif_neg (mt taken_iff.1 taken), if_neg taken]
      refine .bind (ask_matches (ask_rests _)) fun target => ?_
      have enough' : projectionDepth r ≤ depth := by omega
      refine .bind (ask_matches (project_rests enough' name target.val s.variant)) fun projected => ?_
      cases projected with
      | none => exact .pure none
      | some n =>
        have fewer : DraftScope.unwritten r { s with writing := declared :: s.writing, definition := name } < s.unwritten r :=
          Registry.unvisitedIn_cons_lt (Registry.declaredName_mem (r.mem_names_of_find? target.property) _ _)
            fun busy => taken (taken_iff.1 (.inl busy))
        have below := fun other => ih (s := { s with writing := declared :: s.writing, definition := name })
          (by unfold declarationDepth; omega) other
        refine begin_matches (.bind (body_matches below n) fun body => ?_)
        exact .bind (fill_matches _ _) fun _ => .pure _

theorem unwritten_le (r : Registry) (s : DraftScope) : s.unwritten r ≤ 2 * r.definitions.length := by
  refine Nat.le_trans List.countP_le_length (Nat.le_of_eq ?_)
  unfold Registry.declarable Registry.names
  rw [List.length_append, List.length_map, List.length_map, List.length_map]
  omega

theorem declareAll_matches (enough : declarationDepth r + 2 * r.definitions.length < depth) (suffix : String)
    (names : List String) :
    Writes [] (r.declareAll suffix names) (ensureAllDeclared r suffix depth names) := by
  have room : r.definitions.length + projectionDepth r < depth := by
    unfold declarationDepth at enough
    omega
  have declared : ∀ v name, Writes [] (declare r ⟨suffix, v, [], ""⟩ name) (ensureDeclared r suffix v depth name) := fun v name => by
    have most := unwritten_le r ⟨suffix, v, [], ""⟩
    exact declare_matches (s := ⟨suffix, v, [], ""⟩) depth (by omega) name
  induction names with
  | nil => exact .pure ()
  | cons name rest ih =>
    refine .bind (declared .external name) fun _ => ?_
    refine .bind (ask_matches (.ofTotal (differs_rests room name))) fun apart => ?_
    cases apart with
    | false => exact ih
    | true => exact .bind (declared .internal name) fun _ => ih

theorem declarations_rest (enough : declarationDepth r + 2 * r.definitions.length < depth) (names : List String)
    (suffix : String) :
    Mirrors (Rest []) (r.declarationsFor names suffix) (declarationsFor r depth names suffix) := by
  intro m c rest
  obtain ⟨s, reached, held⟩ := declareAll_matches enough suffix names ⟨m, [], []⟩ ⟨c, [], []⟩ ⟨rest, rfl, rfl, nofun⟩
  unfold Registry.declarationsFor declarationsFor
  rw [reached]
  revert held
  rcases r.declareAll suffix names ⟨m, [], []⟩ with ⟨e | a, d⟩ <;> intro held
  · exact ⟨_, rfl, held.rest⟩
  · refine ⟨_, ?_, held.rest⟩
    dsimp only [Option.map_some]
    rw [held.slots, held.imports]

end
end InPlace
end TwinShape
