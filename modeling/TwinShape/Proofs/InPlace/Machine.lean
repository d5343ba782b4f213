import TwinShape.Proofs.InPlace.Termination
import TwinShape.Proofs.InPlace.Upkeep
import TwinShape.Proofs.Registry.Renewal
import TwinShape.Schema.Evaluator

namespace TwinShape
namespace InPlace

section
variable (r : Registry) (depth : Nat)

def propertyNames (name : String) (v : Variant) : Descent Cells (List String) :=
  Descent.andThen (projectDefinition r depth name v) fun
    | .ok (some ⟨.object o, _, _, _, _⟩) => .told (o.properties.map (·.name))
    | _ => .told []

def variationOf (name : String) : Descent Cells VariationEntry :=
  (differs r depth name).andThen fun
    | false => .told ⟨name, false, [], []⟩
    | true =>
      (propertyNames r depth name .internal).andThen fun internal =>
        (propertyNames r depth name .external).andThen fun external =>
          .told ⟨name, true, internal.filter (!external.contains ·), external.filter (!internal.contains ·)⟩

def variationsOf : List String → Descent Cells (List VariationEntry)
  | [] => .told []
  | name :: rest => (variationOf r depth name).andThen fun entry =>
    (variationsOf rest).andThen fun entries => .told (entry :: entries)

def validate (name : String) (instance_ : Json) : Descent Cells (Option (Except Invalid Unit)) :=
  Descent.andThen (schemaFor r depth r.names { SchemaOptions.plain with root := some name }) fun
    | .error f => .told (some (.error (.fault f)))
    | .ok document => .told (validateAgainst r.engines.schema document instance_)

def lintEach : List String → Descent Cells (Option (List DefinitionReport))
  | [] => .told (some [])
  | name :: rest => (lintDefinition r depth name).andThen fun
    | none => .told none
    | some report => (lintEach rest).andThen fun reports => .told (reports.map (report :: ·))

def answer : (q : Request) → Descent Cells q.Answer
  | .resolve referencing name => Descent.andThen (ask (r.resolveFrom referencing name)) fun target => .told (target.map (·.val))
  | .resolveAll => ask r.resolveAll
  | .project definition n v => descend r v depth (.start definition) n
  | .projectDefinition name v => projectDefinition r depth name v
  | .differs name => differs r depth name
  | .nodeDiffers n => nodeDiffers r depth n
  | .variationReport => variationsOf r depth r.names
  | .declarationName suffix name v => (isApart r depth name v).andThen fun apart => .told (declaredName suffix name apart)
  | .declarations names suffix => declarationsFor r depth names suffix
  | .schema names options => schemaFor r depth names options
  | .nodeSchema definition n c => nodeSchema r depth definition n c
  | .validate name instance_ => validate r depth name instance_
  | .lintDefinition name => lintDefinition r depth name
  | .lint strict => (lintEach r depth r.names).andThen fun reports => .told (reports.map (⟨strict, ·⟩))

end

section
variable {r : Registry} {depth : Nat} (enough : depthBound r ≤ depth)
include enough

theorem propertyNames_rest (name : String) (v : Variant) :
    Mirrors (Rest []) (r.propertyNames name v) (propertyNames r depth name v) := by
  refine (projectDefinition_rests (enough_to_project enough) name v).follow fun m answer m' c asked rest => ?_
  unfold Registry.propertyNames
  rw [asked]
  rcases answer with e | _ | ⟨shape, annotations, optionality, restriction, misuse⟩
  · exact ⟨c, rfl, rest⟩
  · exact ⟨c, rfl, rest⟩
  · cases shape <;> exact ⟨c, rfl, rest⟩

theorem variationOf_rests (name : String) : Mirrors (Rest []) (r.variationOf name) (variationOf r depth name) := by
  refine (differs_rests (enough_to_enter enough) name).follow fun m apart m' c asked rest => ?_
  unfold Registry.variationOf
  rw [asked]
  cases apart with
  | false => exact ⟨c, rfl, rest⟩
  | true =>
    exact ((propertyNames_rest enough name .internal).andThen fun internal =>
      (propertyNames_rest enough name .external).andThen fun external =>
        .told (VariationEntry.mk name true (internal.filter (!external.contains ·)) (external.filter (!internal.contains ·)))) m' c rest

theorem variationsOf_rest (names : List String) :
    Mirrors (Rest []) (r.variationsOf names) (variationsOf r depth names) := by
  induction names with
  | nil => exact .told []
  | cons name rest ih => exact (variationOf_rests enough name).andThen fun entry => ih.andThen fun entries => .told (entry :: entries)

theorem validate_rests (name : String) (instance_ : Json) :
    Mirrors (Rest []) (r.validate name instance_) (validate r depth name instance_) := by
  refine (schema_rests (enough_to_enter enough) r.names _).follow fun m document m' c asked rest => ?_
  unfold Registry.validate Registry.schema
  rw [asked]
  cases document <;> exact ⟨c, rfl, rest⟩

theorem lintEach_rests (names : List String) : Mirrors (Rest []) (r.lintEach names) (lintEach r depth names) := by
  induction names with
  | nil => exact .told (some [])
  | cons name rest ih =>
    refine (lintDefinition_rests enough name).follow fun m report m' c asked held => ?_
    unfold Registry.lintEach
    rw [asked]
    cases report with
    | none => exact ⟨c, rfl, held⟩
    | some report => exact (ih.andThen fun reports => .told (reports.map (report :: ·))) m' c held

theorem isApart_rests (name : String) (v : Variant) :
    Mirrors (Rest []) (r.isApart name v) (isApart r depth name v) := by
  cases v with
  | external => exact .told false
  | internal => exact differs_rests (enough_to_enter enough) name

-- Every request is answered in place as it is answered otherwise, and nothing is left in progress.
theorem answer_rests (q : Request) : Mirrors (Rest []) (q.reply r) (answer r depth q) := by
  have projecting := enough_to_project enough
  have entering := enough_to_enter enough
  cases q with
  | resolve referencing name =>
    exact (ask_rests (r.resolveFrom referencing name)).andThen fun target => .told (target.map (·.val))
  | resolveAll => exact ask_rests r.resolveAll
  | project definition n v => exact project_rests projecting definition n v
  | projectDefinition name v => exact projectDefinition_rests projecting name v
  | differs name => exact differs_rests entering name
  | nodeDiffers n => exact nodeDiffers_rests entering n
  | variationReport => exact variationsOf_rest enough r.names
  | declarationName suffix name v => exact (isApart_rests enough name v).andThen fun apart => .told (declaredName suffix name apart)
  | declarations names suffix => exact declarations_rest enough names suffix
  | schema names options => exact schema_rests entering names options
  | nodeSchema definition n c => exact nodeSchema_rests entering definition n c
  | validate name instance_ => exact validate_rests enough name instance_
  | lintDefinition name => exact lintDefinition_rests enough name
  | lint strict => exact (lintEach_rests enough r.names).andThen fun reports => .told (reports.map (LintReport.mk strict))

end

-- A registry with its books, which every operation changes in place.
structure Machine where
  registry : Registry
  cells : Cells

namespace Machine

def start (r : Registry) : Machine := ⟨r, ⟨.blank, [], [], 0⟩⟩

def session (m : Machine) : Session := ⟨m.registry, m.cells.memory⟩

-- Calls may be nested further than they have to be. Adding a definition clears what is remembered
-- about presence and variation, and no other book.
def perform (further : Nat) (m : Machine) : Operation → Option Machine
  | .define d =>
    match m.registry.define d with
    | .ok r => some ⟨r, { m.cells with memory := m.cells.memory.forgetAnswers }⟩
    | .error _ => some m
  | .request q =>
    (answer m.registry (depthBound m.registry + further) q m.cells).map fun (_, after) => { m with cells := after }

def performAll (further : Nat) (m : Machine) : List Operation → Option Machine
  | [] => some m
  | o :: rest => (m.perform further o).bind fun m => m.performAll further rest

def kept? (m : Machine) (name : String) : Option Node :=
  if name ∈ m.cells.memory.built then m.registry.find? name else none

-- Nothing is in progress, and nothing has been found out twice.
structure InOrder (m : Machine) : Prop where
  projecting : m.cells.projecting = []
  checking : m.cells.checking = []
  presence : (m.cells.memory.presence.map (·.1)).Nodup
  variation : (m.cells.memory.variation.map (·.1)).Nodup

-- Definitions and built nodes stay; as long as no definition is added, so does all that is remembered.
structure Continues (m m' : Machine) : Prop where
  registered : m.registry.definitions <+: m'.registry.definitions
  engines : m'.registry.engines = m.registry.engines
  kept : ∀ name n, m.kept? name = some n → m'.kept? name = some n
  remembered : m'.registry = m.registry → m.cells.memory.Onward [] [] m'.cells.memory

theorem Continues.refl {m : Machine} : m.Continues m := ⟨List.prefix_rfl, rfl, fun _ _ => id, fun _ => .refl⟩

theorem Continues.trans {m m' m'' : Machine} (first : m.Continues m') (second : m'.Continues m'') :
    m.Continues m'' := by
  refine ⟨first.registered.trans second.registered, second.engines.trans first.engines, fun name n kept => second.kept name n (first.kept name n kept), fun same => ?_⟩
  -- A definition that was added in between would still be there.
  have between : m'.registry = m.registry := by
    refine Registry.eq_of_definitions ?_ first.engines
    have back : m'.registry.definitions <+: m.registry.definitions := same ▸ second.registered
    exact back.eq_of_length_le first.registered.length_le
  exact (first.remembered between).trans (second.remembered (same.trans between.symm))

theorem start_inOrder (r : Registry) : (start r).InOrder := ⟨rfl, rfl, .nil, .nil⟩

theorem kept?_eq_some {m : Machine} {name : String} {n : Node} :
    m.kept? name = some n ↔ name ∈ m.cells.memory.built ∧ m.registry.find? name = some n := by
  unfold kept?
  split <;> simp_all

-- What an operation does to a machine in order, and to what is known.
def Performs (further : Nat) (m : Machine) (o : Operation) : Prop :=
  ∃ m', m.perform further o = some m' ∧ m'.session = m.session.perform o ∧ m'.InOrder ∧ m.Continues m'

theorem define_performs (further : Nat) {m : Machine} (inOrder : m.InOrder) (d : Definition) :
    m.Performs further (.define d) := by
  unfold Performs perform session Session.perform Session.define
  dsimp only
  cases added : m.registry.define d with
  | error e => exact ⟨_, rfl, rfl, inOrder, .refl⟩
  | ok r =>
    have definitions := Registry.define_definitions added
    refine ⟨_, rfl, rfl, ⟨inOrder.projecting, inOrder.checking, .nil, .nil⟩, ?_⟩
    refine ⟨definitions ▸ List.prefix_append .., Registry.define_engines added, fun name n kept => ?_, fun same => ?_⟩
    · obtain ⟨built, found⟩ := kept?_eq_some.1 kept
      exact kept?_eq_some.2 ⟨built, Registry.find?_define added found⟩
    · have longer := congrArg List.length definitions
      rw [show r = m.registry from same, List.length_append] at longer
      exact absurd longer (Nat.ne_of_lt (Nat.lt_succ_self _))

theorem request_performs (further : Nat) {m : Machine} (inOrder : m.InOrder) (q : Request) :
    m.Performs further (.request q) := by
  obtain ⟨after, answered, rest⟩ := answer_rests (Nat.le_add_right (depthBound m.registry) further) q m.cells.memory m.cells
    ⟨rfl, inOrder.projecting, inOrder.checking⟩
  rw [q.reply_after] at rest
  have onward : m.cells.memory.Onward [] [] after.memory := rest.memory ▸ (onward_kept m.registry m.cells.memory).request_keeps q .refl
  refine ⟨{ m with cells := after }, ?_, ?_, ⟨rest.projecting, rest.checking, ?_, ?_⟩, List.prefix_rfl, rfl, fun name n kept => ?_, fun _ => onward⟩
  · unfold perform
    dsimp only
    rw [answered]
    rfl
  · exact congrArg (Session.mk m.registry) rest.memory
  · exact onward.presence.nodup inOrder.presence
  · exact onward.variation.nodup inOrder.variation
  · obtain ⟨built, found⟩ := kept?_eq_some.1 kept
    exact kept?_eq_some.2 ⟨onward.built.subset built, found⟩

theorem history_performed (further : Nat) {m : Machine} (inOrder : m.InOrder) (history : List Operation) :
    ∃ m', m.performAll further history = some m' ∧ m'.session = m.session.performAll history ∧ m'.InOrder ∧ m.Continues m' := by
  induction history generalizing m with
  | nil => exact ⟨m, rfl, rfl, inOrder, .refl⟩
  | cons o rest ih =>
    have performs : m.Performs further o := by
      cases o with
      | define d => exact define_performs further inOrder d
      | request q => exact request_performs further inOrder q
    obtain ⟨m₁, first, known, inOrder₁, continues⟩ := performs
    obtain ⟨m₂, others, known', inOrder₂, continues'⟩ := ih inOrder₁
    refine ⟨m₂, ?_, ?_, inOrder₂, continues.trans continues'⟩
    · rw [performAll, first]
      exact others
    · rw [known', known]
      rfl

-- After each operation, failed or not, nothing is in progress, and what is remembered stays. Inside
-- of it every call puts its projector back and ends what it has begun.
theorem bookkeeping_survives (r : Registry) (further : Nat) (before later : List Operation) :
    (∃ m m', (start r).performAll further before = some m ∧ m.performAll further later = some m' ∧
      m.InOrder ∧ m'.InOrder ∧
      m.session = (Session.start r).performAll before ∧ m'.session = m.session.performAll later ∧
      (∀ name n, m.kept? name = some n → m'.kept? name = some n) ∧
      (m'.registry = m.registry →
        (∀ key b, m.cells.memory.recallPresence key = some b → m'.cells.memory.recallPresence key = some b) ∧
        ∀ name b, m.cells.memory.recallVariation name = some b → m'.cells.memory.recallVariation name = some b)) ∧
    (∀ (current : Registry) v depth,
      (∀ n, (Stand.descend current v depth n).Returns) ∧
      (∀ name restriction, (Stand.namedParent current v (Stand.descend current v depth) name restriction).Returns) ∧
      (∀ name, (Stand.targetExists current v (Stand.descend current v depth) name).Returns) ∧
      ∀ p n, Stand.alone p (Stand.descend current v depth n) = descend current v depth p n) ∧
    ∀ (current : Registry) depth name, Tidies (definitionDiffers current depth name) := by
  refine ⟨?_, fun current v depth => ?_, definition_tidies⟩
  · obtain ⟨m, first, known, inOrder, -⟩ := history_performed further (start_inOrder r) before
    obtain ⟨m', second, known', inOrder', continues⟩ := history_performed further inOrder later
    refine ⟨m, m', first, second, inOrder, inOrder', known, known', continues.kept, fun same => ?_⟩
    have onward := continues.remembered same
    exact ⟨fun _ _ recalled => onward.recallPresence recalled, fun _ _ recalled => onward.recallVariation recalled⟩
  · have entered := descend_orderly current v depth
    refine ⟨fun n => ?_, fun name restriction => ?_, fun name => ?_, fun p n => (entered p n).alone⟩
    · exact Orderly.returns fun p => entered p n
    · exact Orderly.returns fun p => named_orderly entered name restriction
    · exact Orderly.returns fun p => target_orderly entered name

-- `Loop` extends itself, which is found out in the middle of a check.
def tangled : Registry :=
  ⟨[⟨"Leaf", .string⟩, ⟨"Loop", .extending (.ofProperties []) (.referenceTo "Loop")⟩,
    ⟨"Top", .ofProperties [.of "leaf" (.referenceTo "Leaf"), .of "loop" (.referenceTo "Loop")]⟩], by decide, .builtIn⟩

-- The check of `Loop` fails and is over. What was found out about `Leaf` before it stays.
theorem bookkeeping_survives_tangled :
    (Session.start tangled).answer (.projectDefinition "Top" .external) = .error (.cyclicExtends "Loop" ["Loop", "Loop"]) ∧
    ∃ m m', (start tangled).performAll 0 [.request (.projectDefinition "Top" .external)] = some m ∧
      m.performAll 0 [.define ⟨"Top", .string⟩, .request (.differs "Top")] = some m' ∧
      m.cells.projecting = [] ∧ m'.cells.checking = [] ∧
      m'.cells.memory.recallPresence ("Leaf", .external) = some true := by
  refine ⟨by cbv, ?_⟩
  obtain ⟨⟨m, m', first, second, inOrder, inOrder', known, known', -, remembered⟩, -⟩ :=
    bookkeeping_survives tangled 0 [.request (.projectDefinition "Top" .external)]
      [.define ⟨"Top", .string⟩, .request (.differs "Top")]
  refine ⟨m, m', first, second, inOrder.projecting, inOrder'.checking, (remembered ?_).1 _ _ ?_⟩
  · have registry := congrArg Session.registry known'
    rw [known] at registry
    exact registry.trans (congrArg Session.registry known).symm
  · change m.session.memory.recallPresence ("Leaf", .external) = some true
    rw [known]
    cbv

end Machine
end InPlace
end TwinShape
