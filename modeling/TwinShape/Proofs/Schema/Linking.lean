import TwinShape.Proofs.Registry.Renewal
import TwinShape.Proofs.Schema.BuiltIn
import TwinShape.Proofs.Schema.NormalForm

namespace TwinShape

-- Which schemas are valid, and which instances they accept if their references point into
-- a document.
structure SchemaReading where
  valid : Json → Prop
  accepts (document schema j : Json) : Prop

-- The same fields, up to annotations that are put in or taken out.
structure Rephrases (fields fields' : List (String × Json)) : Prop where
  distinct : (Table.keys fields').Nodup
  same (p : String → Bool) (idle : ∀ f, IsAnnotation f → p f.1 = false) : fields'.filter (p ·.1) = fields.filter (p ·.1)
  added : ∀ f ∈ fields', IsAnnotation f ∨ f ∈ fields

-- What is relied on about a reading: annotations say nothing about instances.
structure SchemaReading.IgnoresAnnotations (reading : SchemaReading) : Prop where
  form : ∀ schema, reading.valid schema → (∃ b, schema = .bool b) ∨ ∃ fields, schema = .object fields
  valid : ∀ fields fields', Rephrases fields fields' → reading.valid (.object fields) → reading.valid (.object fields')
  accepts : ∀ fields fields', Rephrases fields fields' → reading.valid (.object fields) →
    ∀ document j, reading.accepts document (.object fields') j ↔ reading.accepts document (.object fields) j
  empty : reading.valid (.object []) ∧ ∀ document j, reading.accepts document (.object []) j
  all : ∀ document j, reading.accepts document (.bool true) j

namespace Node

theorem rephrases_annotated (n : Node) {fields : List (String × Json)} (distinct : (Table.keys fields).Nodup) :
    Rephrases fields (n.annotated fields) :=
  ⟨n.annotated_distinct fields, fun _ => n.annotated_filter distinct, fun _ => mem_annotated⟩

-- A schema that is an object has no keyword twice, even if it is taken over from a document
-- as a whole.
theorem schema_distinct (c : Container) {n : Node} {fields : List (String × Json)}
    (object : n.schema c = .object fields) :
    (Table.keys fields).Nodup := by
  rw [Node.schema_eq] at object
  cases part : schemaPart c n.annotations.pattern n.shape with
  | keywords inner =>
    rw [part, Node.annotate_keywords] at object
    cases object
    exact n.annotated_distinct inner
  | whole schema =>
    rw [part] at object
    cases (show schema = .object fields from object)
    revert part
    cases n.shape with
    | raw declaration document =>
      rcases document with _ | ⟨mark, document⟩
      · rw [schemaPart]
        rintro ⟨⟩
      · rw [schemaPart]
        cases document <;> rintro ⟨⟩
    | linked declaration side =>
      rw [schemaPart]
      cases side.schema c <;> rintro ⟨⟩
    | _ =>
      rw [schemaPart]
      rintro ⟨⟩

end Node

def linkedPart : Json → SchemaPart
  | .object fields => .keywords fields
  | _ => .keywords []

-- A link accepts what its side accepts, and everything if its side refuses everything.
theorem SchemaReading.IgnoresAnnotations.linked {reading : SchemaReading} (ignores : reading.IgnoresAnnotations)
    (c : Container)
    (n out : Node) (valid : reading.valid (out.schema c)) : reading.valid (annotateSchema n (linkedPart (out.schema c))) ∧
      ∀ document j, reading.accepts document (annotateSchema n (linkedPart (out.schema c))) j ↔
        reading.accepts document (out.schema c) j ∨ out.schema c = .bool false := by
  rcases ignores.form _ valid with ⟨b, written⟩ | ⟨fields, written⟩
  · rw [written]
    have bare : Rephrases [] (n.annotated []) := n.rephrases_annotated List.nodup_nil
    refine ⟨ignores.valid _ _ bare ignores.empty.1, fun document j => ?_⟩
    refine iff_of_true ((ignores.accepts _ _ bare ignores.empty.1 document j).2 (ignores.empty.2 document j)) ?_
    cases b with
    | false => exact .inr rfl
    | true => exact .inl (ignores.all document j)
  · have same := n.rephrases_annotated (Node.schema_distinct c written)
    rw [written] at valid ⊢
    exact ⟨ignores.valid _ _ same valid, fun document j => (ignores.accepts _ _ same valid document j).trans (or_iff_left nofun).symm⟩

namespace Registry
variable {r : Registry} {v : Variant} {schema : Json}

theorem projectNode_alone {scope : Scope} (outermost : scope.projecting = []) (n : Node) (t : Trail) :
    (projectNode r v scope n t).1 = ((projectNode r v scope n).alone t.memory).1 ∧
      (projectNode r v scope n t).2.memory = ((projectNode r v scope n).alone t.memory).2 := by
  let plain := Unison.plain r v
  let view : Trail → Trail → Prop := fun t u => t.memory = u.memory
  have resolve : ∀ {name definition}, plain.named name →
      Alongside True view (fun a b => a.val = b.val ∧ plain.good a.val)
        (Probe.ask (r.resolveFrom definition name)) (Probe.ask (r.resolveFrom definition name)) := by
    intro name definition _ t u seen
    unfold view at seen
    refine .of_answer ?_ ?_ fun _ => ⟨rfl, trivial⟩
    · exact congrArg (fun m => (r.resolveFrom definition name m).1) seen
    · exact congrArg (fun m => (r.resolveFrom definition name m).2) seen
  have decided : ∀ scope name, scope.projecting = [] → plain.named name →
      (plain.simulation view resolve).Runs Eq (isPresent r v scope name) (isPresent r v scope name) := by
    intro scope name outermost _ t u seen
    have first := isPresent_decides (r := r) (v := v) outermost name t
    have second := isPresent_decides (r := r) (v := v) outermost name u
    unfold view at seen
    rw [seen] at first
    exact .of_answer (first.1.trans second.1.symm) (first.2.trans second.2.symm) fun _ => rfl
  have related : (plain.simulation view resolve).source n n := ⟨rfl, trivial⟩
  have nodes := Simulation.node_run decided related scope outermost
  have same := (nodes.weaken fun a b (both : Option.Rel _ a b) => show a = b by
    cases both with
    | none => rfl
    | some both => exact congrArg some both.1) t ⟨t.memory, false⟩ rfl
  exact ⟨same.answer trivial, same.after trivial⟩

theorem project_link {n declaration side : Node} (linked : n.shape = .linked declaration side)
    (inside : n.restriction.includes v) (definition : String) :
    r.project definition n v = r.project definition declaration v >>= fun declaration =>
      r.project definition side v >>= fun side =>
        pure (declaration.bind fun declaration => side.map fun side => n.rebuilt (.linked declaration side)) := by
  funext m
  change _ = Inquiry.bind _ _ m
  rw [project_eq, project_eq, project_eq]
  unfold Inquiry.bind Probe.alone
  rw [projectNode_eq, if_pos inside, linked, projectShape]
  dsimp only [Bind.bind, Inquiry.bind]
  rcases projectNode r v (.start definition []) declaration ⟨m, false⟩ with ⟨e | first, t⟩
  · rfl
  · have second : (projectNode r v (.start definition []) side t).1 = _ ∧ _ := projectNode_alone rfl side t
    unfold Probe.alone at second
    dsimp only
    revert second
    rcases projectNode r v (.start definition []) side t with ⟨e | a, u⟩ <;>
      rcases projectNode r v (.start definition []) side ⟨t.memory, false⟩ with ⟨f | b, w⟩ <;>
      rintro ⟨⟨⟩, same⟩
    · exact congrArg (Prod.mk _) same
    · rcases first with _ | first <;> rcases a with _ | a <;> exact congrArg (Prod.mk _) same

theorem schemaOf_link {n declaration side : Node} (linked : n.shape = .linked declaration side) (scope : SchemaScope) :
    schemaOf r scope n = schemaOf r scope side >>= fun schema => pure (annotateSchema n (linkedPart schema)) := by
  funext d
  rw [schemaOf_eq, linked, schemaPartOf]
  dsimp only [Bind.bind, Inquiry.bind]
  rcases schemaOf r scope side d with ⟨e | schema, d'⟩
  · rfl
  · cases schema <;> rfl

theorem nodeSchema_link {n declaration side : Node} (linked : n.shape = .linked declaration side)
    (inside : n.restriction.includes .external) {first : Node} {m₁ m₂ : Memory}
    (exists_ : r.project definition declaration .external m = (.ok (some first), m₁))
    (emitted : r.nodeSchema definition side c m₁ = (.ok (some schema), m₂)) :
    r.nodeSchema definition n c m = (.ok (some (annotateSchema n (linkedPart schema))), m₂) := by
  unfold nodeSchema at emitted ⊢
  rcases projected : r.project definition side .external m₁ with ⟨_ | _ | out, m'⟩ <;> rw [projected] at emitted
  · cases emitted
  · cases emitted
  have linked' : r.project definition n .external m = (.ok (some (n.rebuilt (.linked first out))), m') := by
    rw [project_link linked inside, Inquiry.bind_ok exists_, Inquiry.bind_ok projected]
    rfl
  dsimp only at emitted
  rcases wrote : schemaOf r ⟨c, [], definition⟩ out ⟨m', []⟩ with ⟨_ | written, d⟩ <;> rw [wrote] at emitted
  · cases emitted
  cases emitted
  rw [linked']
  dsimp only
  rw [schemaOf_link (show (n.rebuilt _).shape = .linked first out from rfl), Inquiry.bind_ok wrote]
  rfl

theorem decided_session (steady : r.Steady v) (reached : r.InSession m) : r.Decided v m := by
  have all : ∀ s : Session, s.Reached → s.registry.Steady v → s.registry.Decided v s.memory := by
    intro s reached
    induction reached with
    | start r => exact fun _ => decided_blank
    | @step s before o ih =>
      cases o with
      | request q => exact fun steady => (decided_kept steady).request_keeps q (ih steady)
      | define d =>
        rcases s.perform_define d with same | ⟨r', added, same⟩
        · exact same.symm ▸ ih
        · rw [same]
          exact fun _ => decided_same decided_blank (fun _ => rfl) (built_define before.fair.built added).sound
  exact all ⟨r, m⟩ reached steady

-- Schemas of nodes come out the same, wherever in its sessions a steady registry is.
theorem nodeSchema_steady (steady : r.Steady .external) (definition : String) (n : Node) (c : Container) :
    Consistent (fun m m' => r.Decided .external m ∧ r.Decided .external m') (r.nodeSchema definition n c) := by
  let sim : SchemaSimulation r r := {
    strict := True
    source := Eq
    result := Eq
    memory := fun m m' => r.Decided .external m ∧ r.Decided .external m'
    shapes := fun same => same ▸ .self _
    texts := fun same => same ▸ ⟨rfl, rfl, rfl, rfl, rfl, rfl⟩
    resolve := fun {name} m m' seen => .of_answer
      ((resolveFrom_answer (decided_sound seen.1) name name).trans (resolveFrom_answer (decided_sound seen.2) name name).symm)
      ⟨decided_resolve name name _ seen.1, decided_resolve name name _ seen.2⟩ fun _ => rfl
    project := fun {m n definition} same => same ▸ (project_steady steady definition m).weaken fun a b same => by
      cases same
      cases a with
      | none => exact .none
      | some out => exact .some rfl }
  exact .of_alongside (sim.nodeSchema_run rfl definition c)

-- A link stands for its side, whatever is annotated. A side that is `false` is the one exception,
-- since it has no keywords to take over.
theorem link_meets {reading : SchemaReading} (ignores : reading.IgnoresAnnotations) {n declaration side first : Node}
    {m m₁ m' : Memory}
    (linked : n.shape = .linked declaration side) (inside : n.restriction.includes .external)
    (exists_ : r.project definition declaration .external m = (.ok (some first), m₁))
    (alone : m' = m₁ ∨ r.Steady .external ∧ r.InSession m ∧ r.InSession m')
    (emitted : (r.nodeSchema definition side c m').1 = .ok (some schema)) (valid : reading.valid schema) :
    ∃ outer, (r.nodeSchema definition n c m).1 = .ok (some outer) ∧ reading.valid outer ∧
      ∀ document j, reading.accepts document outer j ↔ reading.accepts document schema j ∨ schema = .bool false := by
  have here : (r.nodeSchema definition side c m₁).1 = .ok (some schema) := by
    rcases alone with rfl | ⟨steady, reached, reached'⟩
    · exact emitted
    · have reached₁ : r.InSession m₁ := by
        have after := (reached_kept r).project definition declaration .external m reached
        rwa [exists_] at after
      have same := nodeSchema_steady steady definition side c m₁ m'
        ⟨decided_session steady reached₁, decided_session steady reached'⟩
      exact same.1.trans emitted
  obtain ⟨out, -, rfl⟩ := nodeSchema_finished here
  have ⟨valid', same⟩ := ignores.linked c n out valid
  exact ⟨_, congrArg Prod.fst (nodeSchema_link linked inside exists_ (Prod.ext here rfl)), valid', same⟩

def documented (schema : Json) : Node := .ofShape (.raw none (some ⟨⟨"schema", []⟩, schema⟩))

def counted : Node := (Node.link .string (documented (.object [("title", .string "n"), ("type", .string "integer")]))).title "Count"

def counting : Node := (Node.link .number counted).deprecated ""

def plainReading : SchemaReading := ⟨(isSchema .draft07 · = true), fun document schema j => Accepts .builtIn document schema j⟩

theorem plainReading_ignores : plainReading.IgnoresAnnotations := by
  refine ⟨fun schema valid => ?_, fun fields fields' same valid => ?_, fun fields fields' same _ document j => ?_,
    ⟨rfl, fun document j => accepts_object.2 nofun⟩, fun document j => accepts_bool.2 rfl⟩
  · cases schema with
    | bool b => exact .inl ⟨b, rfl⟩
    | object fields => exact .inr ⟨fields, rfl⟩
    | _ => cases valid
  · change isSchema .draft07 (.object fields) = true at valid
    change isSchema .draft07 (.object fields') = true
    rw [isSchema, areKeywords_iff] at valid ⊢
    intro f member
    rcases same.added f member with extra | inner
    · cases extra <;> rfl
    · exact valid f inner
  · change Accepts .builtIn document (.object fields') j ↔ Accepts .builtIn document (.object fields) j
    have essential := same.same isEssential fun _ extra => extra.idle.1
    rw [accepts_iff, @accepts_iff _ _ (.object fields), accepting_essential essential]
    exact (accepting_essential rfl).symm

theorem link_meets_counting : ∃ outer, ((empty .builtIn).nodeSchema "D" counting .definitions .blank).1 = .ok
    (some outer) ∧
    ∀ document j, plainReading.accepts document outer j ↔
      plainReading.accepts document (.object [("title", .string "n"), ("type", .string "integer")]) j := by
  have declared : (empty .builtIn).project "D" .number .external .blank = (.ok (some .number), .blank) := by cbv
  have emitted : ((empty .builtIn).nodeSchema "D" counted .definitions .blank).1 =
      .ok (some (.object [("title", .string "n"), ("type", .string "integer")])) := by cbv
  have valid : plainReading.valid (.object [("title", .string "n"), ("type", .string "integer")]) :=
    (by cbv : isSchema .draft07 (.object [("title", .string "n"), ("type", .string "integer")]) = true)
  obtain ⟨outer, written, -, same⟩ :=
    link_meets plainReading_ignores (show counting.shape = .linked .number counted from rfl) rfl declared (.inl rfl) emitted valid
  refine ⟨outer, written, fun document j => (same document j).trans (or_iff_left ?_)⟩
  rintro ⟨⟩

-- A side that refuses everything, in a link that refuses nothing.
theorem link_meets_refused :
    ((empty .builtIn).nodeSchema "D" (documented (.bool false)) .definitions .blank).1 = .ok (some (.bool false)) ∧
    ((empty .builtIn).nodeSchema "D" (.link .string (documented (.bool false))) .definitions .blank).1 = .ok (some (.object [])) ∧
    plainReading.accepts .null (.object []) .null ∧ ¬plainReading.accepts .null (.bool false) .null :=
  ⟨by cbv, by cbv, accepts_object.2 nofun, fun accepted => Bool.false_ne_true (accepts_bool.1 accepted)⟩

end Registry
end TwinShape
