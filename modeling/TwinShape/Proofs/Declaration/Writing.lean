import TwinShape.Proofs.Declaration.Ledger

namespace TwinShape

theorem Drafting.of_ask_ok {q : Question α} {d d' : Draft} (done : Drafting.ask q d = (.ok a, d')) :
    ∃ m, q d.memory = (.ok a, m) ∧ d' = { d with memory := m } := by
  unfold Drafting.ask Inquiry.within at done
  obtain ⟨answer, after⟩ := Prod.mk.inj done
  exact ⟨(q d.memory).2, Prod.ext answer rfl, after.symm⟩

-- A declaration says what there is to say about its origin.
structure Ledger.Renders (l : Ledger) (identifier : String) (o : Origin) (d : Declaration) : Prop where
  name : d.name = identifier
  comment : d.comment = .ofNode o.node
  body : o.node.Bodied (l.gives o.variant) l.takes d.body

theorem Ledger.Renders.mono {l l' : Ledger} (renders : l.Renders identifier o d) (grows : l.Grows l') :
    l'.Renders identifier o d :=
  ⟨renders.name, renders.comment, renders.body.mono (fun _ _ known => grows.calls.subset known) grows.takes⟩

structure Draft.Holds (writing : List String) (l : Ledger) (d : Draft) : Prop where
  taken : Taken l.Renders writing l.origins d.slots
  imports : d.imports = l.imports

-- The writing of declarations runs its errands in order.
def Registry.originsWalk (r : Registry) (suffix : String) : Walk Draft Ledger Errand where
  goes errands l d l' d' := ∀ rest, r.Strides suffix ⟨l, errands ++ rest, d.memory⟩ ⟨l', rest, d'.memory⟩
  le l l' := l.Grows l'
  stay := fun _ => .refl
  onward first second := by
    intro rest
    rw [List.append_assoc]
    exact (first _).trans (second rest)
  grows goes := strides_grow (goes [])

namespace Registry
variable {r : Registry} {s : DraftScope} {depth : Nat}

abbrev Drafts (r : Registry) (s : DraftScope) (errands : List Errand) (P : Ledger → α → Prop) (x : Drafting α) : Prop :=
  (r.originsWalk s.suffix).Follows (Draft.Holds s.writing) errands P x

abbrev TypedIn (s : DraftScope) (depth : Nat) (n : Node) (l : Ledger) (type : TypeExpr) : Prop :=
  n.Typed (l.gives s.variant) l.takes depth type

theorem typed_lasts (s : DraftScope) (depth : Nat) (n : Node) (type : TypeExpr) :
    (r.originsWalk s.suffix).Lasts (TypedIn s depth n · type) :=
  fun _ _ grows typed => typed.mono (fun _ _ known => grows.calls.subset known) grows.takes

theorem types_drafted {ns : List Node}
    (each : ∀ n ∈ ns, r.Drafts s (n.errands s.variant) (TypedIn s depth n) (typeOf r s depth n)) :
    r.Drafts s (ns.flatMap (Node.errands s.variant)) (fun l types => ∃ options : List (Node × TypeExpr),
      ns = options.map (·.1) ∧ types = options.map (·.2) ∧ ∀ o ∈ options, TypedIn s depth o.1 l o.2)
      (typesOf r s depth ns) := by
  induction ns with
  | nil =>
    rw [typesOf]
    exact .pure fun _ => ⟨[], rfl, rfl, List.forall_mem_nil _⟩
  | cons n rest ih =>
    rw [typesOf]
    refine .bind (each n List.mem_cons_self) (typed_lasts s depth n) fun type => ?_
    refine .bind_pure (ih fun m member => each m (List.mem_cons_of_mem _ member)) ?_
    intro l types further first
    obtain ⟨options, rfl, rfl, later⟩ := further
    exact ⟨(n, type) :: options, rfl, rfl, List.forall_mem_cons.2 ⟨first, later⟩⟩

abbrev MembersIn (s : DraftScope) (depth : Nat) (ps : List (Property Node)) (l : Ledger)
    (members : List (Member TypeExpr)) : Prop :=
  ∃ fields : List (Property Node × TypeExpr), ps = fields.map (·.1) ∧ members = fields.map (fun f => memberOf f.1 f.2) ∧
    ∀ f ∈ fields, TypedIn s (depth + 1) f.1.value l f.2

theorem members_last (s : DraftScope) (depth : Nat) (ps : List (Property Node)) (members : List (Member TypeExpr)) :
    (r.originsWalk s.suffix).Lasts (MembersIn s depth ps · members) := by
  intro l l' grows written
  obtain ⟨fields, same, made, typed⟩ := written
  exact ⟨fields, same, made, fun f member => typed_lasts (r := r) s (depth + 1) f.1.value f.2 l l' grows (typed f member)⟩

theorem members_drafted {ps : List (Property Node)}
    (each : ∀ n ∈ ps.map (·.value), r.Drafts s (n.errands s.variant) (TypedIn s (depth + 1) n) (typeOf r s (depth + 1) n)) :
    r.Drafts s ((ps.map (·.value)).flatMap (Node.errands s.variant)) (MembersIn s depth ps) (membersOf r s depth ps) := by
  induction ps with
  | nil =>
    rw [membersOf]
    exact .pure fun _ => ⟨[], rfl, rfl, List.forall_mem_nil _⟩
  | cons p rest ih =>
    obtain ⟨name, value, restriction⟩ := p
    rw [membersOf]
    refine .bind (each value List.mem_cons_self) (typed_lasts s (depth + 1) value) fun type => ?_
    refine .bind_pure (ih fun m member => each m (List.mem_cons_of_mem _ member)) ?_
    intro l members further first
    obtain ⟨fields, rfl, rfl, later⟩ := further
    exact ⟨(⟨name, value, restriction⟩, type) :: fields, rfl, rfl, List.forall_mem_cons.2 ⟨first, later⟩⟩

theorem index_drafted {a : Additional Node}
    (each : ∀ n ∈ a.nodes, r.Drafts s (n.errands s.variant) (TypedIn s (depth + 1) n) (typeOf r s (depth + 1) n)) :
    r.Drafts s (a.nodes.flatMap (Node.errands s.variant)) (fun l index => ∃ rest, index = a.index rest ∧
      ∀ n ∈ a.nodes, TypedIn s (depth + 1) n l rest) (indexOf r s depth a) := by
  cases a with
  | forbidden =>
    rw [indexOf]
    exact .pure fun _ => ⟨.keyword "unknown", rfl, List.forall_mem_nil _⟩
  | allowed =>
    rw [indexOf]
    exact .pure fun _ => ⟨.keyword "unknown", rfl, List.forall_mem_nil _⟩
  | shape n =>
    rw [indexOf]
    change r.Drafts s (n.errands s.variant ++ []) _ _
    rw [List.append_nil]
    refine .bind_pure (each n List.mem_cons_self) ?_
    exact fun l type typed => ⟨type, rfl, List.forall_mem_singleton.2 typed⟩

theorem object_drafted {ps : List (Property Node)} {a : Additional Node}
    {f : List (Member TypeExpr) → Option TypeExpr → β}
    {Q : Ledger → β → Prop}
    (each : ∀ n ∈ ps.map (·.value) ++ a.nodes,
      r.Drafts s (n.errands s.variant) (TypedIn s (depth + 1) n) (typeOf r s (depth + 1) n))
    (made : ∀ l (fields : List (Property Node × TypeExpr)) rest, ps = fields.map (·.1) →
      (∀ f ∈ fields, TypedIn s (depth + 1) f.1.value l f.2) → (∀ n ∈ a.nodes, TypedIn s (depth + 1) n l rest) →
      Q l (f (fields.map fun f => memberOf f.1 f.2) (a.index rest))) :
    r.Drafts s ((ps.map (·.value) ++ a.nodes).flatMap (Node.errands s.variant)) Q (do
      let members ← membersOf r s depth ps
      let index ← indexOf r s depth a
      Pure.pure (f members index)) := by
  rw [List.flatMap_append]
  refine .bind (members_drafted fun n member => each n (List.mem_append_left _ member)) (members_last s depth ps)
    fun members => ?_
  refine .bind_pure (index_drafted fun n member => each n (List.mem_append_right _ member)) ?_
  intro l index further own
  obtain ⟨fields, same, rfl, typed⟩ := own
  obtain ⟨rest, rfl, typed'⟩ := further
  exact made l fields rest same typed typed'

def GivenIn (v : Variant) (name : String) (l : Ledger) (given : Option String) : Prop :=
  ∀ identifier, given = some identifier → l.gives v name identifier ∧ identifier ∈ l.origins.keys

theorem given_lasts (suffix : String) (v : Variant) (name : String) (given : Option String) :
    (r.originsWalk suffix).Lasts (GivenIn v name · given) := by
  intro l l' grows known identifier same
  obtain ⟨called, declared⟩ := known identifier same
  exact ⟨grows.calls.subset called, grows.keys declared⟩

theorem import_drafted (module name : String) :
    r.Drafts s [.take module name] (fun l _ => l.takes module name) (Drafting.takeImport module name) := by
  intro l d _ d' held done
  cases done
  refine ⟨l.take module name, fun rest => .single .take, ⟨?_, ?_⟩, (l.takes_take module name module name).2 (.inr ⟨rfl, rfl⟩)⟩
  · exact held.taken.weaken fun _ _ _ renders => renders.mono (l.grows_take module name)
  · unfold Ledger.take withImport
    dsimp only
    rw [held.imports]

theorem shape_drafted {n : Node}
    (declared : ∀ name, r.Drafts s [.declare name s.variant]
      (GivenIn s.variant name) (declare r s name))
    (each : ∀ c ∈ n.shape.typedNodes, ∀ depth, r.Drafts s (c.errands s.variant) (TypedIn s depth c) (typeOf r s depth c)) :
    r.Drafts s (n.errands s.variant) (TypedIn s depth n) (typeOf r s depth n) := by
  rw [Node.errands_eq]
  obtain ⟨shape, annotations, optionality, restriction, misuse⟩ := n
  dsimp only at each ⊢
  cases shape with
  | object o =>
    obtain ⟨ps, a, parents⟩ := o
    rw [typeOf]
    refine object_drafted (fun c member => each c member _) ?_
    rintro l fields rest rfl members further
    exact .object fields rfl members further
  | array item =>
    rw [typeOf]
    change r.Drafts s (item.errands s.variant ++ []) _ _
    rw [List.append_nil]
    refine .bind_pure (each item List.mem_cons_self depth) ?_
    exact fun l type typed => .array rfl typed
  | union members =>
    rw [typeOf]
    refine .bind_pure (types_drafted fun c member => each c member depth) ?_
    rintro l types ⟨options, rfl, rfl, typed⟩
    exact .union options rfl typed
  | reference name =>
    rw [typeOf]
    change r.Drafts s ([.declare name s.variant] ++ []) _ _
    refine .bind (declared name) (given_lasts s.suffix s.variant name) fun given => ?_
    cases given with
    | none => exact .fail
    | some identifier => exact .pure fun l known => .reference rfl (known identifier rfl).1
  | raw declaration schema =>
    cases declaration with
    | none =>
      rw [typeOf]
      exact .fail
    | some text =>
      rw [typeOf]
      exact .pure fun _ => .verbatim rfl
  | imported name module =>
    rw [typeOf]
    exact (import_drafted module name).bind_pure fun l _ known => .imported rfl known
  | linked declaration schema =>
    rw [typeOf]
    change r.Drafts s (declaration.errands s.variant ++ []) _ _
    rw [List.append_nil]
    exact (each declaration List.mem_cons_self depth).weaken fun l type typed => .linked rfl typed
  | enumeration values naming =>
    rw [typeOf]
    exact .pure fun _ => .enumeration rfl
  | constant value =>
    rw [typeOf]
    exact .pure fun _ => .constant rfl
  | string =>
    rw [typeOf]
    exact .pure fun _ => .string rfl
  | number =>
    rw [typeOf]
    exact .pure fun _ => .number (.inl rfl)
  | integer =>
    rw [typeOf]
    exact .pure fun _ => .number (.inr rfl)
  | boolean =>
    rw [typeOf]
    exact .pure fun _ => .boolean rfl
  | null =>
    rw [typeOf]
    exact .pure fun _ => .null rfl

theorem body_drafted {n : Node}
    (here : r.Drafts s (n.errands s.variant) (TypedIn s 0 n) (typeOf r s 0 n))
    (each : ∀ c ∈ n.shape.typedNodes, ∀ depth, r.Drafts s (c.errands s.variant) (TypedIn s depth c) (typeOf r s depth c)) :
    r.Drafts s (n.errands s.variant) (fun l body => n.Bodied (l.gives s.variant) l.takes body) (bodyOf r s n) := by
  rw [bodyOf.eq_def]
  split
  · rename_i ps a parents annotations optionality restriction misuse
    rw [Node.errands_eq]
    refine object_drafted (fun c member => each c member _) ?_
    rintro l fields rest rfl members further
    exact .interface fields rfl members further
  · rename_i values naming annotations optionality restriction misuse
    rw [Node.errands_eq]
    exact .pure fun _ => .enumeration rfl
  · rename_i unstructured unnamed
    refine here.bind_pure fun l type typed => .alias_ (fun o shape => ?_) (fun values naming shape => ?_) typed
    · obtain ⟨_, annotations, optionality, restriction, misuse⟩ := n
      cases shape
      exact unstructured _ _ _ _ _ _ _ rfl
    · obtain ⟨_, annotations, optionality, restriction, misuse⟩ := n
      cases shape
      exact unnamed _ _ _ _ _ _ rfl

-- What becomes of the request for a declaration that does not fail: its name is taken
-- already, or the definition has no such shape, or the declaration is written.
inductive Declares (r : Registry) (s : DraftScope) (name : String) (d : Draft) : Option String → Draft → Prop
  | again (judged : r.isApart name s.variant d.memory = (apart, m))
      (taken : declaredName s.suffix name apart ∈ s.writing ∨ d.slots.has (declaredName s.suffix name apart)) :
      Declares r s name d (some (declaredName s.suffix name apart)) { d with memory := m }
  | absent (judged : r.isApart name s.variant d.memory = (apart, m))
      (free : ¬(declaredName s.suffix name apart ∈ s.writing ∨ d.slots.has (declaredName s.suffix name apart)))
      (projected : r.projectDefinition name s.variant m = (.ok none, m')) :
      Declares r s name d none { d with memory := m' }
  | fresh (judged : r.isApart name s.variant d.memory = (apart, m))
      (free : ¬(declaredName s.suffix name apart ∈ s.writing ∨ d.slots.has (declaredName s.suffix name apart)))
      (registered : name ∈ r.names) (projected : r.projectDefinition name s.variant m = (.ok (some n), m'))
      (wrote : bodyOf r { s with writing := declaredName s.suffix name apart :: s.writing, definition := name } n
        ⟨m', d.slots.set (declaredName s.suffix name apart) none, d.imports⟩ = (.ok body, d')) :
      Declares r s name d (some (declaredName s.suffix name apart)) { d' with
        slots := d'.slots.set (declaredName s.suffix name apart) (some ⟨declaredName s.suffix name apart, .ofNode n, body⟩) }

theorem declare_cases {name : String} {d d' : Draft} (done : declare r s name d = (.ok given, d')) :
    Declares r s name d given d' := by
  rw [declare] at done
  obtain ⟨apart, d₁, asked, done⟩ := Inquiry.of_bind_ok done
  obtain ⟨m₁, judged, rfl⟩ := Drafting.of_ask_ok asked
  obtain ⟨_, _, read, done⟩ := Inquiry.of_bind_ok done
  cases read
  replace judged : r.isApart name s.variant d.memory = (apart, m₁) := by
    cases judged
    rfl
  split at done
  · rename_i taken
    cases done
    exact .again judged taken
  · rename_i free
    obtain ⟨target, d₂, asked, done⟩ := Inquiry.of_bind_ok done
    obtain ⟨m₂, resolved, rfl⟩ := Drafting.of_ask_ok asked
    obtain ⟨projected, d₃, asked, done⟩ := Inquiry.of_bind_ok done
    obtain ⟨m₃, ran, rfl⟩ := Drafting.of_ask_ok asked
    have answered : r.projectDefinition name s.variant m₁ = (.ok projected, m₃) := (Inquiry.bind_ok resolved).trans ran
    cases projected with
    | none =>
      cases done
      exact .absent judged free answered
    | some n =>
      obtain ⟨_, d₄, begun, done⟩ := Inquiry.of_bind_ok done
      cases begun
      obtain ⟨body, d₅, wrote, done⟩ := Inquiry.of_bind_ok done
      obtain ⟨_, d₆, filled, done⟩ := Inquiry.of_bind_ok done
      cases filled
      cases done
      exact .fresh judged free (r.mem_names_of_find? target.property) answered wrote

-- A declaration takes its place and then gets its body; one more name is being written below it.
theorem declare_drafted {name : String}
    (inside : ∀ t : DraftScope, t.suffix = s.suffix → t.variant = s.variant → t.unwritten r < s.unwritten r → ∀ n,
      r.Drafts t (n.errands t.variant) (fun l body => n.Bodied (l.gives t.variant) l.takes body) (bodyOf r t n)) :
    r.Drafts s [.declare name s.variant]
      (GivenIn s.variant name) (declare r s name) := by
  intro l d given d' held done
  have same_ : ∀ {identifier other : String}, some identifier = some other → other = identifier :=
    fun same => (Option.some.inj same).symm
  cases declare_cases done with
  | @again apart m judged taken =>
    have grows := l.grows_answer ⟨name, s.variant, declaredName s.suffix name apart⟩
    refine ⟨_, fun rest => .single (.again judged (held.taken.has_iff.1 taken)),
      ⟨held.taken.weaken fun _ _ _ renders => renders.mono grows, held.imports⟩, fun identifier same => ?_⟩
    rw [same_ same]
    exact ⟨List.mem_cons_self, held.taken.has_iff.1 taken⟩
  | absent judged free projected =>
    have free' := fun known => free (held.taken.has_iff.2 known)
    exact ⟨l, fun rest => .single (.absent judged free' projected), ⟨held.taken, held.imports⟩, nofun⟩
  | @fresh apart m m' n body d' judged free registered projected wrote =>
    have free' := fun known => free (held.taken.has_iff.2 known)
    have fresh : declaredName s.suffix name apart ∉ s.writing := fun busy => free (.inl busy)
    have fewer := Registry.unvisitedIn_cons_lt (Registry.declaredName_mem registered s.suffix apart) fresh
    have grows := l.grows_enter (declaredName s.suffix name apart) ⟨name, s.variant, n⟩
    have began : Draft.Holds (declaredName s.suffix name apart :: s.writing)
        (l.enter (declaredName s.suffix name apart) ⟨name, s.variant, n⟩)
        ⟨m', d.slots.set (declaredName s.suffix name apart) none, d.imports⟩ :=
      ⟨(held.taken.start free' ⟨name, s.variant, n⟩).weaken fun _ _ _ renders => renders.mono grows, held.imports⟩
    obtain ⟨l', below, held', bodied⟩ := inside ⟨s.suffix, s.variant, _, name⟩ rfl rfl fewer n _ _ _ _ began wrote
    have grown : Ledger.Grows _ l' := strides_grow (below [])
    refine ⟨l', fun rest => (below rest).head (.fresh judged free' projected),
      ⟨held'.taken.finish (grown.origins.subset List.mem_cons_self) fresh ⟨rfl, rfl, bodied⟩, held'.imports⟩, ?_⟩
    intro identifier same
    rw [same_ same]
    exact ⟨grown.calls.subset List.mem_cons_self, grown.keys List.mem_cons_self⟩

theorem type_drafted (s : DraftScope) (depth : Nat) (n : Node) :
    r.Drafts s (n.errands s.variant) (TypedIn s depth n) (typeOf r s depth n) := by
  refine shape_drafted (fun name => ?_) fun c child depth => type_drafted s depth c
  refine declare_drafted fun t _ _ fewer m => ?_
  exact body_drafted (type_drafted t 0 m) fun c child depth => type_drafted t depth c
termination_by (s.unwritten r, sizeOf n)
decreasing_by
  all_goals first
    | exact .left _ _ ‹_›
    | exact .right _ (Node.sizeOf_child (Shape.child_of_typed ‹_›))

theorem given_drafted (s : DraftScope) (name : String) :
    r.Drafts s [.declare name s.variant]
      (GivenIn s.variant name) (declare r s name) :=
  declare_drafted fun t _ _ _ m => body_drafted (type_drafted t 0 m) fun c _ depth => type_drafted t depth c

end Registry

def errandsFor (names : List String) : List Errand :=
  names.flatMap fun name => [.declare name .external, .compare name]

-- A ledger accounts for a document if there is one declaration for each origin, in the order
-- in which they were met, and no other.
structure Ledger.Accounts (l : Ledger) (document : DeclarationDocument) : Prop where
  distinct : l.origins.keys.Nodup
  declared : List.Forall₂ (fun e d => l.Renders e.1 e.2 d) l.origins.reverse document.declarations
  imports : document.imports = l.imports

def DeclarationDocument.names (document : DeclarationDocument) : List String := document.declarations.map (·.name)

theorem Ledger.Accounts.names {l : Ledger} {document : DeclarationDocument} (accounts : l.Accounts document) :
    document.names = l.origins.keys.reverse := by
  have declared := accounts.declared
  rw [← Table.keys_reverse]
  unfold DeclarationDocument.names
  generalize l.origins.reverse = earliest, document.declarations = declarations at declared ⊢
  induction declared with
  | nil => rfl
  | cons head _ ih => exact congrArg₂ List.cons head.name ih

theorem errandsFor_sound {r : Registry} {suffix : String} {J : Memory → Prop} (names : List String) (held : J m) :
    Progress.Sound r suffix J names ⟨.blank, errandsFor names, m⟩ := by
  refine ⟨.blank, fun e waiting => ?_, held⟩
  obtain ⟨name, listed, here⟩ := List.mem_flatMap.1 waiting
  rcases List.mem_cons.1 here with rfl | here
  · exact .listed listed
  · cases List.mem_singleton.1 here
    exact listed

namespace Registry
variable {r : Registry} {suffix : String} {names : List String}

theorem compared_drafted {s : DraftScope} {name : String} {x : Bool → Drafting α} {P : Ledger → α → Prop}
    (apart : r.Drafts s (.declare name .internal :: errands) P (x true)) (alike : r.Drafts s errands P (x false)) :
    r.Drafts s (.compare name :: errands) P (Drafting.ask (Inquiry.ofTotal (r.differs name)) >>= x) := by
  intro l d a d' held done
  obtain ⟨found, d₁, asked, done⟩ := Inquiry.of_bind_ok done
  obtain ⟨m₁, compared, rfl⟩ := Drafting.of_ask_ok asked
  replace compared : r.differs name d.memory = (found, m₁) := by
    cases compared
    rfl
  cases found with
  | true =>
    obtain ⟨l', walk, held', holds⟩ := apart l ⟨m₁, d.slots, d.imports⟩ a d' ⟨held.taken, held.imports⟩ done
    exact ⟨l', fun rest => (walk rest).head (.apart compared), held', holds⟩
  | false =>
    obtain ⟨l', walk, held', holds⟩ := alike l ⟨m₁, d.slots, d.imports⟩ a d' ⟨held.taken, held.imports⟩ done
    exact ⟨l', fun rest => (walk rest).head (.alike compared), held', holds⟩

theorem all_drafted (suffix : String) (names : List String) :
    r.Drafts ⟨suffix, .external, [], ""⟩ (errandsFor names) (fun _ _ => True) (r.declareAll suffix names) := by
  induction names with
  | nil => exact .pure fun _ => trivial
  | cons name rest ih =>
    have external := given_drafted (r := r) ⟨suffix, .external, [], ""⟩ name
    have internal := given_drafted (r := r) ⟨suffix, .internal, [], ""⟩ name
    change r.Drafts _ ([.declare name .external] ++ .compare name :: errandsFor rest) _ _
    refine .bind external (given_lasts suffix .external name) fun _ => compared_drafted ?_ ?_
    · exact .bind internal (given_lasts suffix .internal name) fun _ => ih.weaken fun _ _ _ _ _ => trivial
    · exact ih.weaken fun _ _ _ _ => trivial

theorem declarationsFor_accounted (written : r.declarationsFor names suffix m = (.ok document, m')) :
    ∃ d l, r.declareAll suffix names ⟨m, [], []⟩ = (.ok (), d) ∧ Draft.Holds [] l d ∧
      r.Strides suffix ⟨.blank, errandsFor names, m⟩ ⟨l, [], m'⟩ ∧ l.Accounts document ∧
      d.slots = document.declarations.map fun declaration => (declaration.name, some declaration) := by
  unfold declarationsFor at written
  rcases ran : r.declareAll suffix names ⟨m, [], []⟩ with ⟨e | _, d⟩ <;> rw [ran] at written
  · cases written
  · cases written
    obtain ⟨l, walk, held, -⟩ := all_drafted suffix names .blank _ _ _ ⟨.nothing, rfl⟩ ran
    have strides := walk []
    rw [List.append_nil] at strides
    obtain ⟨contents, same, related⟩ := held.taken.settled
    have filled : d.slots.filterMap (·.2) = contents.map (·.2) := by
      rw [same, List.filterMap_map, ← List.filterMap_eq_map]
      rfl
    refine ⟨d, l, rfl, held, strides, ⟨held.taken.distinct, ?_, held.imports⟩, ?_⟩
    · dsimp only
      rw [filled, List.forall₂_map_right_iff]
      exact related.imp fun _ _ holds => holds.2
    · dsimp only
      rw [filled, same, List.map_map]
      refine List.map_congr_left fun entry member => ?_
      obtain ⟨o, -, key, renders⟩ := forall₂_left related member
      exact congrArg (·, some entry.2) (key.symm.trans renders.name.symm)

end Registry
end TwinShape
