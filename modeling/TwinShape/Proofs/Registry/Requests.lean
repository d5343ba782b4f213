import TwinShape.Lint.Definition
import TwinShape.Proofs.Declaration.Repetition
import TwinShape.Proofs.Schema.Simulation
import TwinShape.Proofs.Variation.Repetition
import TwinShape.Registry.Session
import TwinShape.Schema.Validation

namespace TwinShape

-- What can be asked of a registry, whatever becomes of the answer.
inductive Request where
  | resolve (referencing name : String)
  | resolveAll
  | project (definition : String) (n : Node) (v : Variant)
  | projectDefinition (name : String) (v : Variant)
  | differs (name : String)
  | nodeDiffers (n : Node)
  | variationReport
  | declarationName (suffix name : String) (v : Variant)
  | declarations (names : List String) (suffix : String)
  | schema (names : List String) (options : SchemaOptions)
  | nodeSchema (definition : String) (n : Node) (c : Container)
  | validate (name : String) (instance_ : Json)
  | lintDefinition (name : String)
  | lint (strict : Bool)

def Request.Answer : Request → Type
  | .resolve .. => Except Fault Node
  | .resolveAll => Except Fault Unit
  | .project .. => Except Fault (Option Node)
  | .projectDefinition .. => Except Fault (Option Node)
  | .differs _ => Bool
  | .nodeDiffers _ => Bool
  | .variationReport => List VariationEntry
  | .declarationName .. => String
  | .declarations .. => Except Fault DeclarationDocument
  | .schema .. => Except Fault Json
  | .nodeSchema .. => Except Fault (Option Json)
  | .validate .. => Option (Except Invalid Unit)
  | .lintDefinition _ => Option DefinitionReport
  | .lint _ => Option LintReport

def Request.reply (r : Registry) : (q : Request) → Memory → q.Answer × Memory
  | .resolve referencing name, m => ((r.resolveFrom referencing name m).1.map (·.val), (r.resolveFrom referencing name m).2)
  | .resolveAll, m => r.resolveAll m
  | .project definition n v, m => r.project definition n v m
  | .projectDefinition name v, m => r.projectDefinition name v m
  | .differs name, m => r.differs name m
  | .nodeDiffers n, m => r.nodeDiffers n m
  | .variationReport, m => r.variationReport m
  | .declarationName suffix name v, m => r.declarationName suffix name v m
  | .declarations names suffix, m => r.declarationsFor names suffix m
  | .schema names options, m => r.schemaFor names options m
  | .nodeSchema definition n c, m => r.nodeSchema definition n c m
  | .validate name instance_, m => r.validate name instance_ m
  | .lintDefinition name, m => r.lintDefinition name m
  | .lint strict, m => r.lint strict m

def Request.after (r : Registry) : Request → Memory → Memory
  | .resolve referencing name, m => (r.resolveFrom referencing name m).2
  | .resolveAll, m => (r.resolveAll m).2
  | .project definition n v, m => (r.project definition n v m).2
  | .projectDefinition name v, m => (r.projectDefinition name v m).2
  | .differs name, m => (r.differs name m).2
  | .nodeDiffers n, m => (r.nodeDiffers n m).2
  | .variationReport, m => (r.variationReport m).2
  | .declarationName suffix name v, m => (r.declarationName suffix name v m).2
  | .declarations names suffix, m => (r.declarationsFor names suffix m).2
  | .schema names options, m => (r.schemaFor names options m).2
  | .nodeSchema definition n c, m => (r.nodeSchema definition n c m).2
  | .validate name instance_, m => (r.validate name instance_ m).2
  | .lintDefinition name, m => (r.lintDefinition name m).2
  | .lint strict, m => (r.lint strict m).2

theorem Request.reply_after (r : Registry) (q : Request) (m : Memory) : (q.reply r m).2 = q.after r m := by
  cases q <;> rfl

def Registry.afterAll (r : Registry) (history : List Request) (m : Memory) : Memory :=
  history.foldl (fun m q => q.after r m) m

inductive Operation where
  | define (d : Definition)
  | request (q : Request)

def Session.perform (s : Session) : Operation → Session
  | .define d =>
    match s.define d with
    | .ok s => s
    | .error _ => s
  | .request q => { s with memory := q.after s.registry s.memory }

theorem Session.perform_define (s : Session) (d : Definition) :
    s.perform (.define d) = s ∨
      ∃ r, s.registry.define d = .ok r ∧ s.perform (.define d) = ⟨r, s.memory.forgetAnswers⟩ := by
  unfold perform define
  dsimp only
  cases s.registry.define d with
  | error fault => exact .inl rfl
  | ok r => exact .inr ⟨r, rfl, rfl⟩

-- The sessions that a freshly built registry can come to.
inductive Session.Reached : Session → Prop
  | start (r : Registry) : Reached (.start r)
  | step (before : Reached s) (o : Operation) : Reached (s.perform o)

-- Memories from which the questions that all requests come down to get the same answers.
structure Interchangeable (r : Registry) (S : Memory → Memory → Prop) : Prop where
  resolve : ∀ referencing name, Consistent S (r.resolveFrom referencing name)
  project : ∀ definition n v, Consistent S (r.project definition n v)
  differs : ∀ name, Consistent S (r.differs name)
  nodeDiffers : ∀ n, Consistent S (r.nodeDiffers n)

namespace Interchangeable
variable {r : Registry} {S : Memory → Memory → Prop}

-- Comparing adds nothing to resolving, projecting and remembering differences.
theorem of_projections (resolve : ∀ referencing name, Consistent S (r.resolveFrom referencing name))
    (project : ∀ definition n v, Consistent S (r.project definition n v))
    (known : ∀ {m n}, S m n → ∀ name, m.recallVariation name = n.recallVariation name)
    (remember : ∀ {m n}, S m n → ∀ name contrast, S (m.rememberContrast name contrast) (n.rememberContrast name contrast)) :
    Interchangeable r S := by
  have resolved := fun name => resolve name name
  have definitions : ∀ name v, Consistent S (r.projectDefinition name v) := fun name v =>
    .bind (resolve name name) fun _ => project _ _ v
  refine ⟨resolve, project, fun name => ?_, fun n => ?_⟩
  · exact (definitionContrast_consistent resolved definitions known remember [] name).andThen
      fun contrast => .told contrast.isDifference
  · exact (nodeContrast_consistent resolved definitions known remember [] n).andThen fun contrast => .told contrast.isDifference

variable (same : Interchangeable r S)
include same

theorem projectDefinition (name : String) (v : Variant) : Consistent S (r.projectDefinition name v) :=
  .bind (same.resolve name name) fun _ => same.project _ _ _

theorem resolveEach (names : List String) : Consistent S (r.resolveEach names) := by
  induction names with
  | nil => exact .told _
  | cons name rest ih => exact .bind (same.resolve name name) fun _ => ih

theorem propertyNames (name : String) (v : Variant) : Consistent S (r.propertyNames name v) := by
  intro m n seen
  have told := same.projectDefinition name v m n seen
  unfold Registry.propertyNames
  revert told
  rcases r.projectDefinition name v m with ⟨a, m'⟩
  rcases r.projectDefinition name v n with ⟨b, n'⟩
  rintro ⟨rfl, after⟩
  rcases a with e | _ | ⟨shape, annotations, optionality, restriction, misuse⟩
  · exact ⟨rfl, after⟩
  · exact ⟨rfl, after⟩
  · cases shape <;> exact ⟨rfl, after⟩

theorem variationOf (name : String) : Consistent S (r.variationOf name) := by
  intro m n seen
  have told := same.differs name m n seen
  unfold Registry.variationOf
  revert told
  rcases r.differs name m with ⟨apart, m'⟩
  rcases r.differs name n with ⟨_, n'⟩
  rintro ⟨rfl, after⟩
  cases apart with
  | false => exact ⟨rfl, after⟩
  | true =>
    have ⟨internal, between⟩ := same.propertyNames name .internal m' n' after
    have ⟨external, finally_⟩ := same.propertyNames name .external _ _ between
    refine ⟨?_, finally_⟩
    dsimp only
    rw [internal, external]

theorem variationsOf (names : List String) : Consistent S (r.variationsOf names) := by
  induction names with
  | nil => exact .told _
  | cons name rest ih => exact (same.variationOf name).andThen fun entry => ih.andThen fun entries => .told (entry :: entries)

theorem declarationName (suffix name : String) (v : Variant) : Consistent S (r.declarationName suffix name v) := by
  have apart : Consistent S (r.isApart name v) := by
    cases v with
    | external => exact .told _
    | internal => exact same.differs name
  exact apart.andThen fun apart => .told (declaredName suffix name apart)

def redrafting : Redrafting r where
  memory := S
  fault _ := True
  source _ _ := True
  good _ _ := True
  lacking _ _ := True
  child _ _ := trivial
  absent _ _ _ := trivial
  unwritten := trivial
  resolve := (same.resolve _ _).repeats
  project _ := (same.project _ _ _).repeats.weaken (fun _ => id) fun _ _ => ⟨fun _ => trivial, fun _ _ => trivial⟩
  differs := (same.differs _).ofTotal.repeats

theorem declarations (names : List String) (suffix : String) : Consistent S (r.declarationsFor names suffix) :=
  .of_repeats (same.redrafting.declarations_repeat names suffix)

def schemas : SchemaSimulation r r where
  strict := True
  source m n := m = n
  result m n := m = n
  memory := S
  shapes := by
    rintro m _ rfl
    exact .self _
  texts := by
    rintro m _ rfl
    exact ⟨rfl, rfl, rfl, rfl, rfl, rfl⟩
  resolve m n seen := .of_answer (same.resolve _ _ m n seen).1 (same.resolve _ _ m n seen).2 fun _ => rfl
  project := by
    rintro k _ definition rfl m n seen
    refine .of_answer (same.project definition k .external m n seen).1 (same.project definition k .external m n seen).2 fun a => ?_
    cases a with
    | none => exact .none
    | some n => exact .some rfl

theorem schemaFor (names : List String) (options : SchemaOptions) : Consistent S (r.schemaFor names options) :=
  .of_alongside (same.schemas.schemaFor_run names options)

theorem nodeSchema (definition : String) (n : Node) (c : Container) : Consistent S (r.nodeSchema definition n c) :=
  .of_alongside (same.schemas.nodeSchema_run rfl definition c)

theorem validate (name : String) (instance_ : Json) : Consistent S (r.validate name instance_) := by
  intro m n seen
  have told := same.schemaFor r.names { SchemaOptions.plain with root := some name } m n seen
  unfold Registry.validate Registry.schema
  revert told
  rcases r.schemaFor r.names { SchemaOptions.plain with root := some name } m with ⟨document, m'⟩
  rcases r.schemaFor r.names { SchemaOptions.plain with root := some name } n with ⟨_, n'⟩
  rintro ⟨rfl, after⟩
  cases document <;> exact ⟨rfl, after⟩

theorem checkValues (definition : String) (definitions : Json) (place : Place) (n : Node) :
    Consistent S (r.checkValues definition definitions place n) := by
  intro m m' seen
  have told := same.nodeSchema definition n .definitions m m' seen
  unfold Registry.checkValues
  revert told
  rcases r.nodeSchema definition n .definitions m with ⟨schema, k⟩
  rcases r.nodeSchema definition n .definitions m' with ⟨_, k'⟩
  rintro ⟨rfl, after⟩
  rcases schema with e | _ | schema
  · exact ⟨rfl, after⟩
  · exact ⟨rfl, after⟩
  · dsimp only
    split <;> exact ⟨rfl, after⟩

theorem checkAllValues (definition : String) (definitions : Json) (visited : List (Place × Node)) :
    Consistent S (r.checkAllValues definition definitions visited) := by
  induction visited with
  | nil => exact .told _
  | cons entry rest ih =>
    obtain ⟨place, n⟩ := entry
    intro m m' seen
    unfold Registry.checkAllValues
    cases n.annotations.examples.isEmpty && n.default?.isNone with
    | true => exact ih m m' seen
    | false =>
      have told := same.checkValues definition definitions place n m m' seen
      dsimp only [cond_false]
      revert told
      rcases r.checkValues definition definitions place n m with ⟨found, k⟩
      rcases r.checkValues definition definitions place n m' with ⟨_, k'⟩
      rintro ⟨rfl, after⟩
      cases found with
      | none => exact ⟨rfl, after⟩
      | some found => exact (ih.andThen fun others => .told (others.map (found ++ ·))) k k' after

theorem lintProjection (name : String) (v : Variant) (found : List Diagnostic) :
    Consistent S (r.lintProjection name v found) := by
  intro m n seen
  have told := same.projectDefinition name v m n seen
  unfold Registry.lintProjection
  revert told
  rcases r.projectDefinition name v m with ⟨a, m'⟩
  rcases r.projectDefinition name v n with ⟨_, n'⟩
  rintro ⟨rfl, after⟩
  rcases a with e | _ | k <;> exact ⟨rfl, after⟩

theorem lintDeclaration (name : String) : Consistent S (r.lintDeclaration name) := by
  intro m n seen
  have told := same.declarations [name] DeclarationStyle.usual.internalSuffix m n seen
  unfold Registry.lintDeclaration
  revert told
  rcases r.declarationsFor [name] DeclarationStyle.usual.internalSuffix m with ⟨a, m'⟩
  rcases r.declarationsFor [name] DeclarationStyle.usual.internalSuffix n with ⟨_, n'⟩
  rintro ⟨rfl, after⟩
  cases a <;> exact ⟨rfl, after⟩

theorem lintSchema (name : String) (external : Node) : Consistent S (r.lintSchema name external) := by
  intro m n seen
  have told := same.schemaFor [name] .plain m n seen
  unfold Registry.lintSchema
  revert told
  rcases r.schemaFor [name] .plain m with ⟨reachable, m'⟩
  rcases r.schemaFor [name] .plain n with ⟨_, n'⟩
  rintro ⟨rfl, after⟩
  cases reachable with
  | error e => exact ⟨rfl, after⟩
  | ok reachable =>
    have told := same.schemaFor r.names .plain m' n' after
    unfold Registry.schema
    dsimp only
    revert told
    rcases r.schemaFor r.names .plain m' with ⟨full, k⟩
    rcases r.schemaFor r.names .plain n' with ⟨_, k'⟩
    rintro ⟨rfl, after⟩
    exact same.checkAllValues name _ _ k k' after

theorem diagnostics (name : String) : Consistent S (r.diagnostics name) := by
  intro m n seen
  have told := same.resolve name name m n seen
  unfold Registry.diagnostics Registry.resolve
  revert told
  rcases r.resolveFrom name name m with ⟨target, m₁⟩
  rcases r.resolveFrom name name n with ⟨_, n₁⟩
  rintro ⟨rfl, built⟩
  rcases target with e | target
  · exact ⟨rfl, built⟩
  have told := same.lintProjection name .external (duplicateLiterals target.val) m₁ n₁ built
  dsimp only
  revert told
  rcases r.lintProjection name .external (duplicateLiterals target.val) m₁ with ⟨outer, m₂⟩
  rcases r.lintProjection name .external (duplicateLiterals target.val) n₁ with ⟨_, n₂⟩
  rintro ⟨rfl, outside⟩
  rcases outer with e | ⟨external, found⟩
  · exact ⟨rfl, outside⟩
  have told := same.lintProjection name .internal found m₂ n₂ outside
  dsimp only
  revert told
  rcases r.lintProjection name .internal found m₂ with ⟨inner, m₃⟩
  rcases r.lintProjection name .internal found n₂ with ⟨_, n₃⟩
  rintro ⟨rfl, inside⟩
  rcases inner with e | ⟨internal, found'⟩
  · exact ⟨rfl, inside⟩
  cases external with
  | none => exact ((same.lintDeclaration name).andThen fun unwritten => .told (some (found' ++ unwritten))) m₃ n₃ inside
  | some external =>
    exact ((same.lintDeclaration name).andThen fun unwritten => (same.lintSchema name external).andThen fun others =>
      .told (others.map (found' ++ unwritten ++ ·))) m₃ n₃ inside

theorem lintDefinition (name : String) : Consistent S (r.lintDefinition name) :=
  (same.diagnostics name).andThen fun found => .told (found.map (DefinitionReport.mk name))

theorem lintEach (names : List String) : Consistent S (r.lintEach names) := by
  induction names with
  | nil => exact .told _
  | cons name rest ih =>
    intro m n seen
    have told := same.lintDefinition name m n seen
    unfold Registry.lintEach
    revert told
    rcases r.lintDefinition name m with ⟨report, m'⟩
    rcases r.lintDefinition name n with ⟨_, n'⟩
    rintro ⟨rfl, after⟩
    cases report with
    | none => exact ⟨rfl, after⟩
    | some report => exact (ih.andThen fun reports => .told (reports.map (report :: ·))) m' n' after

theorem request (q : Request) : Consistent S (q.reply r) := by
  cases q with
  | resolve referencing name => exact (same.resolve referencing name).andThen fun target => .told (target.map (·.val))
  | resolveAll => exact same.resolveEach r.names
  | project definition n v => exact same.project definition n v
  | projectDefinition name v => exact same.projectDefinition name v
  | differs name => exact same.differs name
  | nodeDiffers n => exact same.nodeDiffers n
  | variationReport => exact same.variationsOf r.names
  | declarationName suffix name v => exact same.declarationName suffix name v
  | declarations names suffix => exact same.declarations names suffix
  | schema names options => exact same.schemaFor names options
  | nodeSchema definition n c => exact same.nodeSchema definition n c
  | validate name instance_ => exact same.validate name instance_
  | lintDefinition name => exact same.lintDefinition name
  | lint strict => exact (same.lintEach r.names).andThen fun reports => .told (reports.map (LintReport.mk strict))

end Interchangeable

-- What is kept true by the questions that all requests come down to.
structure Kept (r : Registry) (J : Memory → Prop) : Prop where
  resolve : ∀ referencing name, Inquiry.Keeps J (r.resolveFrom referencing name)
  project : ∀ definition n v, Inquiry.Keeps J (r.project definition n v)
  differs : ∀ name m, J m → J (r.differs name m).2
  nodeDiffers : ∀ n m, J m → J (r.nodeDiffers n m).2

namespace Kept
variable {r : Registry} {J : Memory → Prop}

theorem of_projections (resolve : ∀ referencing name, Inquiry.Keeps J (r.resolveFrom referencing name))
    (project : ∀ definition n v, Inquiry.Keeps J (r.project definition n v))
    (remember : ∀ m name apart, J m → J { m with variation := (name, apart) :: m.variation }) : Kept r J := by
  have remembered : ∀ m name contrast, J m → J (m.rememberContrast name contrast) := by
    rintro m name (_ | _ | _) held
    · exact remember m name true held
    · exact remember m name false held
    · exact held
  have same : Interchangeable r fun m n => m = n ∧ J m := .of_projections
    (fun referencing name => .of_kept (resolve referencing name)) (fun definition n v => .of_kept (project definition n v))
    (fun seen _ => seen.1 ▸ rfl) fun seen name contrast => ⟨seen.1 ▸ rfl, remembered _ name contrast seen.2⟩
  exact ⟨resolve, project, fun name _ => (same.differs name).kept, fun n _ => (same.nodeDiffers n).kept⟩

theorem always (r : Registry) : Kept r fun _ => True :=
  .of_projections (fun _ _ _ _ => trivial) (fun _ _ _ _ _ => trivial) fun _ _ _ _ => trivial

theorem and {J' : Memory → Prop} (first : Kept r J) (second : Kept r J') : Kept r fun m => J m ∧ J' m :=
  ⟨fun referencing name m held => ⟨first.resolve referencing name m held.1, second.resolve referencing name m held.2⟩,
    fun definition n v m held => ⟨first.project definition n v m held.1, second.project definition n v m held.2⟩,
    fun name m held => ⟨first.differs name m held.1, second.differs name m held.2⟩,
    fun n m held => ⟨first.nodeDiffers n m held.1, second.nodeDiffers n m held.2⟩⟩

variable (kept : Kept r J)
include kept

theorem interchangeable : Interchangeable r fun m n => m = n ∧ J m :=
  ⟨fun referencing name => .of_kept (kept.resolve referencing name), fun definition n v => .of_kept (kept.project definition n v),
    fun name => .of_kept (kept.differs name), fun n => .of_kept (kept.nodeDiffers n)⟩

theorem request_keeps (q : Request) {m : Memory} (held : J m) : J (q.after r m) :=
  q.reply_after r m ▸ (kept.interchangeable.request q).kept held

theorem afterAll_keeps (history : List Request) {m : Memory} (held : J m) : J (r.afterAll history m) := by
  induction history generalizing m with
  | nil => exact held
  | cons q rest ih => exact ih (kept.request_keeps q held)

end Kept

-- An answer that a definition's projection gives at some memory of a kind.
def Registry.Tells (r : Registry) (J : Memory → Prop) (name : String) (v : Variant) (answer : Option Node) : Prop :=
  ∃ m, J m ∧ (r.projectDefinition name v m).1 = .ok answer

-- The memories that sessions with a registry come to.
abbrev Registry.InSession (r : Registry) (m : Memory) : Prop := Session.Reached ⟨r, m⟩

theorem reached_kept (r : Registry) : Kept r r.InSession where
  resolve referencing name _ reached := reached.step (.request (.resolve referencing name))
  project definition n v _ reached := reached.step (.request (.project definition n v))
  differs name _ reached := reached.step (.request (.differs name))
  nodeDiffers n _ reached := reached.step (.request (.nodeDiffers n))

theorem Kept.projectDefinition {r : Registry} {J : Memory → Prop} (kept : Kept r J) (name : String) (v : Variant) :
    Inquiry.Keeps J (r.projectDefinition name v) :=
  .bind (kept.resolve name name) fun n => kept.project name n.val v

end TwinShape
