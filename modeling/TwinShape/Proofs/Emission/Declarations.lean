import TwinShape.Proofs.Emission.Writing

namespace TwinShape

abbrev Draft.InSession (r : Registry) (d : Draft) : Prop := r.InSession d.memory

namespace Drafting
variable {r : Registry} {v : Variant}

-- Drafting that answers for its faults.
abbrev Answers (r : Registry) (v : Variant) (P : α → Prop) (x : Drafting α) : Prop :=
  Inquiry.Ends (Draft.InSession r) (r.Answers .declarations v) P x

theorem differs_answers (name : String) : Answers r v (fun _ => True) (ask (Inquiry.ofTotal (r.differs name))) :=
  Inquiry.Ends.intro fun d reached => ⟨(reached_kept r).differs name d.memory reached, trivial⟩

theorem apart_answers (name : String) : Answers r v (fun _ => True) (ask (Inquiry.ofTotal (r.isApart name v))) := by
  cases v with
  | external => exact Inquiry.Ends.intro fun d reached => ⟨reached, trivial⟩
  | internal => exact differs_answers name

theorem fill_answers (name : String) (declaration : Option Declaration) :
    Answers r v (fun _ => True) (fill name declaration) := Inquiry.Ends.intro fun _ reached => ⟨reached, trivial⟩

theorem import_answers (module name : String) : Answers r v (fun _ => True) (takeImport module name) :=
  Inquiry.Ends.intro fun _ reached => ⟨reached, trivial⟩

end Drafting

namespace DraftScope
variable {r : Registry} {s : DraftScope} {depth : Nat}

-- Drafting in a scope that nothing but this stops there.
abbrev Writes (r : Registry) (s : DraftScope) (stop : Option Node) (x : Drafting α) : Prop :=
  Inquiry.Writes (Draft.InSession r) (r.Answers .declarations s.variant) .declarations s.definition stop x

theorem types_write {ns : List Node} (each : ∀ n ∈ ns, s.Writes r (n.firstMute? .declarations) (typeOf r s depth n)) :
    s.Writes r (ns.findSome? (Node.firstMute? .declarations)) (typesOf r s depth ns) := by
  induction ns with
  | nil =>
    rw [typesOf]
    exact .pure
  | cons n rest ih =>
    rw [typesOf]
    exact .cons (each n List.mem_cons_self) fun _ => (ih fun m member => each m (List.mem_cons_of_mem _ member)).bind_pure

theorem members_write {ps : List (Property Node)}
    (each : ∀ n ∈ ps.map (·.value), s.Writes r (n.firstMute? .declarations) (typeOf r s (depth + 1) n)) :
    s.Writes r ((ps.map (·.value)).findSome? (Node.firstMute? .declarations)) (membersOf r s depth ps) := by
  induction ps with
  | nil =>
    rw [membersOf]
    exact .pure
  | cons p rest ih =>
    rw [membersOf]
    exact .cons (each p.value List.mem_cons_self) fun _ => (ih fun m member => each m (List.mem_cons_of_mem _ member)).bind_pure

theorem index_writes {a : Additional Node}
    (each : ∀ n ∈ a.nodes, s.Writes r (n.firstMute? .declarations) (typeOf r s (depth + 1) n)) :
    s.Writes r (a.nodes.findSome? (Node.firstMute? .declarations)) (indexOf r s depth a) := by
  cases a with
  | shape n =>
    rw [indexOf]
    exact .cons (each n List.mem_cons_self) fun _ => .pure
  | _ =>
    rw [indexOf]
    exact .pure

theorem object_writes {n : Node} (shape : n.shape = .object ⟨properties, additional, parents⟩)
    (each : ∀ c ∈ n.children, ∀ depth, s.Writes r (c.firstMute? .declarations) (typeOf r s depth c))
    (f : List (Member TypeExpr) → Option TypeExpr → α) :
    s.Writes r (n.firstMute? .declarations)
      (membersOf r s depth properties >>= fun members => indexOf r s depth additional >>= fun index => pure (f members index)) := by
  have child := fun c member => each c (Node.child_of_shape shape (List.mem_append_left _ member))
  rw [Node.firstMute?_inside (by rw [shape]; rfl), shape]
  change s.Writes r ((properties.map (·.value) ++ additional.nodes).findSome? _) _
  rw [List.findSome?_append]
  refine (members_write fun c member => child c (List.mem_append_left _ member) _).bind fun _ => ?_
  exact (index_writes fun c member => child c (List.mem_append_right _ member) _).bind_pure

theorem shape_writes {n : Node} (declared : ∀ name, Drafting.Answers r s.variant (fun _ => True) (declare r s name))
    (each : ∀ c ∈ n.children, ∀ depth, s.Writes r (c.firstMute? .declarations) (typeOf r s depth c)) :
    s.Writes r (n.firstMute? .declarations) (typeOf r s depth n) := by
  obtain ⟨shape, annotations, optionality, restriction, misuse⟩ := n
  cases shape with
  | object o =>
    obtain ⟨properties, additional, parents⟩ := o
    rw [typeOf]
    exact object_writes rfl each _
  | array item =>
    rw [Node.firstMute?_inside rfl, typeOf]
    exact .cons (each item List.mem_cons_self depth) fun _ => .pure
  | union options =>
    rw [Node.firstMute?_inside rfl, typeOf]
    exact (types_write fun c member => each c member depth).bind_pure
  | reference name =>
    rw [Node.firstMute?_inside rfl, typeOf]
    refine .of_ends (.bind (declared name) fun found _ => ?_)
    cases found with
    | none => exact .fail (.inl rfl)
    | some declared => exact .pure trivial
  | raw declaration schema =>
    cases declaration with
    | none =>
      have complains : Shape.complaint? .declarations (.raw none schema) =
        some fun definition => .missingRawBackend definition .declarations := rfl
      rw [Node.firstMute?_mute complains, typeOf]
      exact .stopped (y := ⟨.raw none schema, annotations, optionality, restriction, misuse⟩) complains
    | some text =>
      rw [Node.firstMute?_inside rfl, typeOf]
      exact .pure
  | imported name module =>
    rw [Node.firstMute?_inside rfl, typeOf]
    exact .of_ends (.bind (Drafting.import_answers module name) fun _ _ => .pure trivial)
  | linked declaration schema =>
    rw [Node.firstMute?_inside rfl, typeOf]
    change s.Writes r ([declaration].findSome? _) _
    rw [List.findSome?_singleton]
    exact each declaration List.mem_cons_self depth
  | _ =>
    rw [Node.firstMute?_inside rfl, typeOf]
    exact .pure

theorem body_writes {n : Node} (here : ∀ depth, s.Writes r (n.firstMute? .declarations) (typeOf r s depth n))
    (each : ∀ c ∈ n.children, ∀ depth, s.Writes r (c.firstMute? .declarations) (typeOf r s depth c)) :
    s.Writes r (n.firstMute? .declarations) (bodyOf r s n) := by
  rw [bodyOf.eq_def]
  split
  · exact object_writes rfl each _
  · rw [Node.firstMute?_inside rfl]
    exact .pure
  · exact (here 0).bind_pure

theorem declare_answers {name : String}
    (inside : ∀ t : DraftScope, t.variant = s.variant → t.definition = name → t.unwritten r < s.unwritten r → ∀ n,
      t.Writes r (n.firstMute? .declarations) (bodyOf r t n)) :
    Drafting.Answers r s.variant (fun _ => True) (declare r s name) := by
  rw [declare]
  refine .bind (Drafting.apart_answers name) fun apart _ => ?_
  refine .inspect (fun d e seen => by rw [seen.1]) fun draft => ?_
  split
  · exact .pure trivial
  · rename_i fresh
    refine projected_ends (fun _ _ => rfl) .declarations (fun _ _ _ => rfl) fun projected told => ?_
    cases projected with
    | none => exact .pure trivial
    | some n =>
      have told := told n rfl
      refine .bind (Drafting.fill_answers _ _) fun _ _ => ?_
      let below := { s with writing := declaredName s.suffix name apart :: s.writing, definition := name }
      have fewer : below.unwritten r < s.unwritten r := by
        refine Registry.unvisitedIn_cons_lt (Registry.declaredName_mem (Registry.registered_of_tells told).1 _ _) ?_
        exact fun busy => fresh (.inl busy)
      refine .bind ((inside below rfl rfl fewer n).answers told) fun body _ => ?_
      exact .bind (Drafting.fill_answers _ _) fun _ _ => .pure trivial

theorem type_writes (s : DraftScope) (depth : Nat) (n : Node) :
    s.Writes r (n.firstMute? .declarations) (typeOf r s depth n) := by
  refine shape_writes (fun name => ?_) fun c child depth => type_writes s depth c
  refine declare_answers fun t _ _ fewer m => ?_
  exact body_writes (fun depth => type_writes t depth m) fun c child depth => type_writes t depth c
termination_by (s.unwritten r, sizeOf n)
decreasing_by
  all_goals first
    | exact .left _ _ ‹_›
    | exact .right _ (Node.sizeOf_child ‹_›)

theorem definition_answers (s : DraftScope) (name : String) :
    Drafting.Answers r s.variant (fun _ => True) (declare r s name) :=
  declare_answers fun t _ _ _ m => body_writes (fun depth => type_writes t depth m) fun c _ depth => type_writes t depth c

end DraftScope

namespace Registry
variable {r : Registry}

-- Whichever of the shapes of a definition is being declared, what stops that is in the same variant.
theorem declareAll_ends (suffix : String) (names : List String) :
    Inquiry.Ends (Draft.InSession r) (fun e => ∃ v, r.Answers .declarations v e) (fun _ => True) (r.declareAll suffix names) := by
  have some_ : ∀ {α v} {x : Drafting α}, Drafting.Answers r v (fun _ => True) x →
      Inquiry.Ends (Draft.InSession r) (fun e => ∃ v, r.Answers .declarations v e) (fun _ => True) x :=
    fun drafts => drafts.weaken (fun _ answers => ⟨_, answers⟩) fun _ => id
  induction names with
  | nil => exact .pure trivial
  | cons name rest ih =>
    refine .bind (some_ (DraftScope.definition_answers ⟨suffix, .external, [], ""⟩ name)) fun _ _ => ?_
    refine .bind (some_ (Drafting.differs_answers (v := .external) name)) fun apart _ => ?_
    cases apart with
    | false => exact ih
    | true => exact .bind (some_ (DraftScope.definition_answers ⟨suffix, .internal, [], ""⟩ name)) fun _ _ => ih

theorem declarationsFor_stops {names : List String} {suffix : String} (reached : r.InSession m)
    (failed : (r.declarationsFor names suffix m).1 = .error e) (unwritable : e.isUnwritable) :
    ∃ v definition y, r.Stops .declarations v definition y e := by
  have ended := (Inquiry.Ends.elim (r.declareAll_ends suffix names) (s := ⟨m, [], []⟩) reached).2
  unfold declarationsFor at failed
  revert failed ended
  rcases r.declareAll suffix names ⟨m, [], []⟩ with ⟨e' | _, d⟩
  · rintro ⟨⟩ ⟨v, writable | stops⟩
    · exact nomatch unwritable.symm.trans writable
    · exact ⟨v, stops⟩
  · exact nofun

end Registry
end TwinShape
