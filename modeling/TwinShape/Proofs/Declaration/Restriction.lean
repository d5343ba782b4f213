import Mathlib
import TwinShape.Proofs.Declaration.Identifiers
import TwinShape.Proofs.Variation.Judgement

namespace TwinShape

theorem pairs_unique {as bs : List (α × β)} (keys : as.map (·.1) = bs.map (·.1))
    (each : ∀ a ∈ as, ∀ b ∈ bs, a.1 = b.1 → a.2 = b.2) : as = bs := by
  have same := filterMap_eq_of_keys (f := some) keys fun a inside b inside' key =>
    congrArg some (Prod.ext key (each a inside b inside' key))
  rwa [List.filterMap_some, List.filterMap_some] at same

theorem Node.RefersTo.fields {P : String → Prop} {n : Node} {fields : List (Property Node × TypeExpr)}
    {extra : Additional Node} (refers : n.RefersTo P) (shape : n.shape = .object ⟨fields.map (·.1), extra, parents⟩) :
    (∀ f ∈ fields, f.1.value.RefersTo P) ∧ ∀ a ∈ extra.nodes, a.RefersTo P := by
  have below := fun c child => (Node.each_iff.1 refers).2 c (Node.child_of_shape (c := c) shape child)
  refine ⟨fun f inside => below _ (List.mem_append_left _ (List.mem_append_left _ ?_)), fun a inside => ?_⟩
  · exact List.mem_map_of_mem (List.mem_map_of_mem inside)
  · exact below a (List.mem_append_left _ (List.mem_append_right _ inside))

section
variable {given taken given' taken' : String → String → Prop} {P : String → Prop}

theorem fields_unique {fields fields' : List (Property Node × TypeExpr)} {extra : Additional Node}
    {rest rest' : TypeExpr}
    (keys : fields.map (·.1) = fields'.map (·.1)) (members : ∀ f ∈ fields, ∀ type, (f.1, type) ∈ fields' → f.2 = type)
    (further : ∀ a ∈ extra.nodes, rest = rest') : fields = fields' ∧ extra.index rest = extra.index rest' := by
  constructor
  · exact pairs_unique keys fun f inside f' inside' key => members f inside f'.2 (key ▸ inside')
  · cases extra with
    | forbidden | allowed => rfl
    | shape a => exact congrArg some (further a List.mem_cons_self)

variable (agree : ∀ name, P name → ∀ id id', given name id → given' name id' → id = id')
include agree

-- The type of a node is determined by the names of the definitions that it refers to.
theorem Node.Typed.unique {type : TypeExpr} (typed : Node.Typed given taken depth n type) :
    n.RefersTo P → ∀ type', Node.Typed given' taken' depth n type' → type = type' := by
  induction typed with
  | object fields shape _ _ members further =>
    intro refers type' second
    have ⟨below, beside⟩ := refers.fields shape
    cases second with
    | object fields' shape' members' further' =>
      obtain ⟨keys, rfl, -⟩ := ObjectShape.mk.inj (Shape.object.inj (shape.symm.trans shape'))
      have ⟨same, others⟩ := fields_unique keys
        (fun f inside type inside' => members f inside (below f inside) type (members' _ inside'))
        (fun a inside => further a inside (beside a inside) _ (further' a inside))
      rw [same, others]
    | _ => simp_all
  | array shape _ ih =>
    intro refers type' second
    cases second with
    | array shape' inner' =>
      cases shape.symm.trans shape'
      have below := (Node.each_iff.1 refers).2 _ (Node.child_of_shape shape List.mem_cons_self)
      rw [ih below _ inner']
    | _ => simp_all
  | union options shape _ ih =>
    intro refers type' second
    have below := fun c child => (Node.each_iff.1 refers).2 c (Node.child_of_shape (c := c) shape child)
    cases second with
    | union options' shape' each' =>
      have same : options = options' := pairs_unique (Shape.union.inj (shape.symm.trans shape'))
        fun o inside o' inside' key => ih o inside (below _ (List.mem_map_of_mem inside)) _ (key ▸ each' o' inside')
      rw [same]
    | _ => simp_all
  | reference shape known =>
    intro refers type' second
    cases second with
    | reference shape' known' =>
      cases shape.symm.trans shape'
      rw [agree _ (refers _ .self _ shape) _ _ known known']
    | _ => simp_all
  | linked shape _ ih =>
    intro refers type' second
    cases second with
    | linked shape' inner' =>
      cases shape.symm.trans shape'
      exact ih ((Node.each_iff.1 refers).2 _ (Node.child_of_shape shape List.mem_cons_self)) _ inner'
    | _ => simp_all
  | number shape =>
    intro refers type' second
    rcases shape with shape | shape <;> cases second <;> simp_all
  | enumeration shape | constant shape | string shape | boolean shape | null shape | verbatim shape | imported shape _ =>
    intro refers type' second
    cases second <;> simp_all

theorem Node.Bodied.unique {body body' : DeclaredAs} (first : Node.Bodied given taken n body) (refers : n.RefersTo P)
    (second : Node.Bodied given' taken' n body') : body = body' := by
  cases first with
  | interface fields shape members further =>
    have ⟨below, beside⟩ := refers.fields shape
    cases second with
    | interface fields' shape' members' further' =>
      obtain ⟨keys, rfl, -⟩ := ObjectShape.mk.inj (Shape.object.inj (shape.symm.trans shape'))
      have ⟨same, others⟩ := fields_unique keys
        (fun f inside type inside' => (members f inside).unique agree (below f inside) type (members' _ inside'))
        (fun a inside => (further a inside).unique agree (beside a inside) _ (further' a inside))
      rw [same, others]
    | _ => simp_all
  | enumeration shape => cases second <;> simp_all
  | alias_ unstructured unnamed typed =>
    cases second with
    | interface _ shape' => exact absurd shape' (unstructured _)
    | enumeration shape' => exact absurd shape' (unnamed _ _)
    | alias_ _ _ typed' => rw [typed.unique agree refers _ typed']

end

theorem Ledger.Renders.unique {P : String → Prop} {l l' : Ledger} {o o' : Origin} {d d' : Declaration}
    (first : l.Renders identifier o d) (second : l'.Renders identifier o' d') (shape : o.node = o'.node)
    (agree : ∀ name, P name → ∀ id id', l.gives o.variant name id → l'.gives o'.variant name id' → id = id')
    (refers : o.node.RefersTo P) : d = d' := by
  have body : d.body = d'.body := first.body.unique agree refers (shape ▸ second.body)
  have comment : d.comment = d'.comment := first.comment.trans (shape ▸ second.comment.symm)
  have name : d.name = d'.name := first.name.trans second.name.symm
  cases d
  cases d'
  cases body
  cases comment
  cases name
  rfl

theorem Registry.Tells.imp {r : Registry} {J J' : Memory → Prop} (told : r.Tells J name v answer)
    (weaker : ∀ m, J m → J' m) :
    r.Tells J' name v answer := by
  obtain ⟨m, held, answered⟩ := told
  exact ⟨m, weaker m held, answered⟩

namespace Registry
variable {r : Registry} {suffix : String} {names : List String} {v w : Variant}

-- The memories that a run on a fresh registry comes to.
def InRun (r : Registry) (m : Memory) : Prop := r.InSession m ∧ m.Faithful r

theorem run_blank (r : Registry) : r.InRun .blank := ⟨.start r, faithful_blank r⟩

variable (exact_ : ∀ v, r.Exact v) (settled : r.Settled)

include exact_ in
theorem run_determined (same : v = w ∨ r.CleanName name) (first : r.Tells r.InRun name v out)
    (second : r.Tells r.InRun name w out') : out = out' := by
  obtain ⟨m, run, answered⟩ := first
  obtain ⟨m', run', answered'⟩ := second
  obtain ⟨n, resolves, projects⟩ := projectDefinition_exactly (exact_ v) (run.2.decided v) answered
  obtain ⟨n', resolves', projects'⟩ := projectDefinition_exactly (exact_ w) (run'.2.decided w) answered'
  cases resolves.unique resolves'
  exact exactly_determined (same.imp_right fun clean => clean n resolves) projects projects'

theorem refersTo_clean (clean : r.CleanName name) (told : r.Tells r.InRun name v (some n)) :
    n.RefersTo r.CleanName := by
  obtain ⟨m, run, answered⟩ := told
  obtain ⟨own, resolves, projected⟩ := projectDefinition_ok (decided_sound (run.2.decided v)) answered
  have projects := (project_decides (decided_resolve name name _ (run.2.decided v)) name own).2 _ projected
  have kept : Projects r v (fun other _ => r.CleanName other) own (some n) :=
    projects.across v (clean own resolves) fun _ _ clean' _ => clean'
  exact kept.refersTo n rfl

include exact_ settled

theorem run_kept : Kept r r.InRun := (reached_kept r).and (faithful_kept exact_ settled)

theorem judged_iff (judged : r.Judges r.InRun name v apart) : apart = true ↔ v = .internal ∧ ¬r.CleanName name := by
  obtain ⟨m, run, found⟩ := judged
  cases v with
  | external => exact iff_of_false (fun same => Bool.false_ne_true (found.trans same)) fun both => nomatch both.1
  | internal =>
    cases apart with
    | true => exact iff_of_true rfl ⟨rfl, unclean_of_differs exact_ settled run.2 found⟩
    | false => exact iff_of_false nofun fun both => both.2 (clean_of_judged ⟨m, run.1, found⟩)

theorem names_unique (same : v = w ∨ r.CleanName name) (first : r.Names suffix r.InRun name v identifier)
    (second : r.Names suffix r.InRun name w identifier') : identifier = identifier' := by
  obtain ⟨apart, judged, rfl⟩ := first
  obtain ⟨apart', judged', rfl⟩ := second
  have iff_ := judged_iff exact_ settled judged
  have iff' := judged_iff exact_ settled judged'
  have both : apart = apart' := by
    rcases same with rfl | clean
    · exact Bool.eq_iff_iff.2 (iff_.trans iff'.symm)
    · exact Bool.eq_iff_iff.2 (iff_of_false (fun yes => (iff_.1 yes).2 clean) fun yes => (iff'.1 yes).2 clean)
  rw [both]

-- A shape that some run comes to is declared in a run for all definitions, under the same name.
theorem declared_in_full {l : Ledger} (sound : l.Sound r suffix r.InRun r.names)
    (done : ∀ e ∈ errandsFor r.names, e.Done r r.InRun l) (told : r.Tells r.InRun name v (some n))
    (named : r.Names suffix r.InRun name v identifier) :
    ∃ w, l.gives w name identifier ∧ (v = w ∨ r.CleanName name) := by
  have registered := (registered_of_tells (told.imp fun _ => And.left)).1
  have asked : ∀ e ∈ [Errand.declare name .external, .compare name], e.Done r r.InRun l := fun e here =>
    done e (List.mem_flatMap.2 ⟨name, registered, here⟩)
  -- Whatever a clean definition is asked for in, its external declaration will do.
  have external : v = .external ∨ r.CleanName name → ∃ w, l.gives w name identifier ∧ (v = w ∨ r.CleanName name) := by
    intro same
    rcases asked _ List.mem_cons_self with ⟨identifier', given⟩ | none_
    · cases names_unique exact_ settled same named (sound.calls _ given).named
      exact ⟨.external, given, same⟩
    · cases run_determined exact_ same told none_
  by_cases clean : r.CleanName name
  · exact external (.inr clean)
  · cases v with
    | external => exact external (.inl rfl)
    | internal =>
      rcases asked _ (List.mem_cons_of_mem _ List.mem_cons_self) with alike | ⟨identifier', given⟩ | none_
      · exact absurd ((judged_iff exact_ settled alike).2 ⟨rfl, clean⟩) Bool.false_ne_true
      · cases names_unique exact_ settled (.inl rfl) named (sound.calls _ given).named
        exact ⟨.internal, given, .inl rfl⟩
      · cases run_determined exact_ (.inl rfl) told none_

theorem declarationsFor_restricts (unclashing : r.Unclashing r.names suffix)
    (written : r.declarationsFor names suffix .blank = (.ok part, m))
    (written' : r.declarations suffix .blank = (.ok whole, m')) : part.declarations ⊆ whole.declarations := by
  obtain ⟨_, l, -, -, strides, accounts, -⟩ := declarationsFor_accounted written
  obtain ⟨_, l', -, -, strides', accounts', -⟩ := declarationsFor_accounted written'
  have kept := run_kept exact_ settled
  have start : Progress.Sound r suffix r.InRun r.names ⟨.blank, errandsFor r.names, .blank⟩ := errandsFor_sound _ (run_blank r)
  have sound := (strides_sound kept strides (errandsFor_sound names (run_blank r))).ledger
  have sound' := (strides_sound kept strides' start).ledger
  have session := (strides_sound (reached_kept r) strides' (errandsFor_sound r.names (.start r))).ledger
  intro d member
  obtain ⟨⟨identifier, o⟩, entry, renders⟩ := forall₂_left accounts.declared member
  have entered := sound.origins _ (List.mem_reverse.1 entry)
  obtain ⟨w, given, same⟩ := declared_in_full exact_ settled sound' (strides_done kept strides' rfl start)
    entered.projected entered.named
  obtain ⟨o', entry', definition, variant, -⟩ := owner_of_gives unclashing session given
  obtain ⟨d', member', renders'⟩ := forall₂_right accounts'.declared (List.mem_reverse.2 entry')
  have told := (sound'.origins _ entry').projected
  dsimp only at definition told renders renders'
  rw [definition] at told
  have alike : o.variant = o'.variant ∨ r.CleanName o.definition := by
    rcases same with same | clean
    · exact variant.imp_left fun same' => same.trans same'.symm
    · exact .inr clean
  have shape : o.node = o'.node := Option.some.inj (run_determined exact_ alike entered.projected told)
  have refers : o.node.RefersTo fun other => o.variant = o'.variant ∨ r.CleanName other := by
    intro x part other reference
    rcases alike with same | clean
    · exact .inl same
    · exact .inr (refersTo_clean clean entered.projected x part other reference)
  have same : d = d' := by
    refine renders.unique renders' shape (fun other same _ _ known known' => ?_) refers
    exact names_unique exact_ settled same (sound.calls _ known).named (sound'.calls _ known').named
  exact same ▸ member'

end Registry
end TwinShape
