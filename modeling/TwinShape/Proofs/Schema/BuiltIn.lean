import TwinShape.Proofs.Schema.Evaluation

namespace TwinShape

def fieldReferences (f : String × Json) : List String :=
  match KeywordName.ofKey f.1, f.2 with
  | .reference, .string reference => [reference]
  | _, value => referencesIn value

theorem referencesInFields_eq (fields : List (String × Json)) :
    referencesInFields fields = fields.flatMap fieldReferences := by
  induction fields with
  | nil => rfl
  | cons f rest ih =>
    obtain ⟨key, value⟩ := f
    rw [referencesInFields.eq_def, List.flatMap_cons, ← ih]
    rfl

theorem referencesInItems_eq (items : List Json) : referencesInItems items = items.flatMap referencesIn := by
  induction items with
  | nil => rfl
  | cons j rest ih => rw [referencesInItems, List.flatMap_cons, ih]

theorem mem_fieldReferences (inside : target ∈ referencesIn j) (key : String) : target ∈ fieldReferences (key, j) := by
  cases j with
  | array | object => cases name : KeywordName.ofKey key <;> simpa [fieldReferences, name] using inside
  | _ => cases inside

theorem referencesIn_object (fields : List (String × Json)) :
    referencesIn (.object fields) = fields.flatMap fieldReferences := by
  rw [referencesIn, referencesInFields_eq]

theorem Json.Holds.references {s t : Json} (holds : s.Holds t) : referencesIn t ⊆ referencesIn s := by
  obtain ⟨name, value, ⟨fields, key, rfl, member, -⟩, under⟩ := holds
  intro text found
  rw [referencesIn_object]
  refine List.mem_flatMap.2 ⟨_, member, mem_fieldReferences ?_ key⟩
  unfold schemasUnder at under
  split at under
  · exact List.mem_singleton.1 under ▸ found
  · exact List.mem_singleton.1 under ▸ found
  · rw [referencesIn, referencesInItems_eq]
    exact List.mem_flatMap.2 ⟨t, under, found⟩
  · obtain ⟨f, inside, rfl⟩ := List.mem_map.1 under
    rw [referencesIn_object]
    exact List.mem_flatMap.2 ⟨f, inside, mem_fieldReferences found f.1⟩
  · obtain ⟨f, inside, rfl⟩ := List.mem_map.1 under
    rw [referencesIn_object]
    exact List.mem_flatMap.2 ⟨f, inside, mem_fieldReferences found f.1⟩
  · cases under

theorem Json.Within.references {document s : Json} (inside : document.Within s)
    (stated : s.States .reference (.string text)) :
    text ∈ referencesIn document := by
  induction inside using Relation.ReflTransGen.head_induction_on with
  | refl =>
    obtain ⟨fields, key, rfl, member, named⟩ := stated
    rw [referencesIn_object]
    refine List.mem_flatMap.2 ⟨_, member, ?_⟩
    unfold fieldReferences
    rw [named]
    exact List.mem_cons_self
  | head holds _ ih => exact holds.references ih

def readAt? (d : Dialect) (document : Json) (target : String) : Option Rule :=
  (Pointer.resolve? document target).bind (rule? d)

-- How far the targets of references have been read. What the rules refer to has been read or waits.
structure Frontier (d : Dialect) (document : Json) (good : String → Prop) (done : List (String × Rule)) (pending : List String) : Prop where
  entry : ∀ e ∈ done, good e.1 ∧ readAt? d document e.1 = some e.2
  inner : ∀ e ∈ done, ∀ target ∈ e.2.references, target ∈ done.map (·.1) ∨ target ∈ pending
  waiting : ∀ target ∈ pending, good target

namespace Frontier
variable {d : Dialect} {document : Json} {good : String → Prop} {done : List (String × Rule)} {rest : List String}

theorem skip (frontier : Frontier d document good done (target :: rest)) (read : target ∈ done.map (·.1)) :
    Frontier d document good done rest := by
  refine ⟨frontier.entry, fun e member other inside => ?_, fun other member => frontier.waiting other (List.mem_cons_of_mem _ member)⟩
  rcases frontier.inner e member other inside with known | waiting
  · exact .inl known
  · rcases List.mem_cons.1 waiting with rfl | later
    · exact .inl read
    · exact .inr later

theorem read (frontier : Frontier d document good done (target :: rest))
    (closed : ∀ target rule, good target → readAt? d document target = some rule → ∀ t ∈ rule.references, good t)
    (found : readAt? d document target = some rule) :
    Frontier d document good ((target, rule) :: done) (rule.references ++ rest) := by
  have here := frontier.waiting target List.mem_cons_self
  refine ⟨fun e member => ?_, fun e member other inside => ?_, fun other member => ?_⟩
  · rcases List.mem_cons.1 member with rfl | old
    · exact ⟨here, found⟩
    · exact frontier.entry e old
  · rcases List.mem_cons.1 member with rfl | old
    · exact .inr (List.mem_append_left _ inside)
    · rcases frontier.inner e old other inside with known | waiting
      · exact .inl (List.mem_cons_of_mem _ known)
      · rcases List.mem_cons.1 waiting with rfl | later
        · exact .inl List.mem_cons_self
        · exact .inr (List.mem_append_right _ later)
  · rcases List.mem_append.1 member with new | later
    · exact closed target rule here found other new
    · exact frontier.waiting other (List.mem_cons_of_mem _ later)

theorem targets? {known pending : List String} (frontier : Frontier d document good done pending)
    (closed : ∀ target rule, good target → readAt? d document target = some rule → ∀ t ∈ rule.references, good t)
    (ended : TwinShape.targets? d document known done pending = some targets) :
    Frontier d document good targets [] ∧ done.map (·.1) ⊆ targets.map (·.1) ∧ pending ⊆ targets.map (·.1) := by
  fun_induction TwinShape.targets? d document known done pending with
  | case1 done =>
    cases ended
    exact ⟨frontier, List.Subset.refl _, List.nil_subset _⟩
  | case2 done target rest seen ih =>
    obtain ⟨last, kept, later⟩ := ih (frontier.skip seen) ended
    exact ⟨last, kept, List.cons_subset.2 ⟨kept seen, later⟩⟩
  | case3 done target rest fresh written rule found ih =>
    obtain ⟨last, kept, later⟩ := ih (frontier.read closed found) ended
    obtain ⟨here, kept⟩ := List.cons_subset.1 kept
    exact ⟨last, kept, List.cons_subset.2 ⟨here, fun other member => later (List.mem_append_right _ member)⟩⟩
  | case4 => cases ended
  | case5 => cases ended

theorem exists_targets {known pending : List String} (frontier : Frontier d document good done pending)
    (closed : ∀ target rule, good target → readAt? d document target = some rule → ∀ t ∈ rule.references, good t)
    (readable : ∀ target, good target → target ∈ known ∧ ∃ rule, readAt? d document target = some rule) :
    ∃ targets, TwinShape.targets? d document known done pending = some targets := by
  fun_induction TwinShape.targets? d document known done pending with
  | case1 done => exact ⟨done, rfl⟩
  | case2 done target rest seen ih => exact ih (frontier.skip seen)
  | case3 done target rest fresh written rule found ih => exact ih (frontier.read closed found)
  | case4 done target rest fresh written missing =>
    obtain ⟨_, rule, found⟩ := readable target (frontier.waiting target List.mem_cons_self)
    cases missing.symm.trans found
  | case5 done target rest fresh unwritten =>
    exact absurd (readable target (frontier.waiting target List.mem_cons_self)).1 unwritten

end Frontier

-- The form of a schema, keyword by keyword.
section
variable {d : Dialect} {document : Json}

theorem areKeywords_iff (d : Dialect) (fields : List (String × Json)) :
    areKeywords d fields = true ↔ ∀ f ∈ fields, areKeywords d [f] = true := by
  induction fields with
  | nil => simp [areKeywords]
  | cons f rest ih =>
    obtain ⟨key, value⟩ := f
    rw [areKeywords, Bool.and_eq_true, ih, List.forall_mem_cons]
    refine and_congr_left fun _ => ?_
    rw [areKeywords, areKeywords, Bool.and_true]

theorem areSchemas_iff {js : List Json} : areSchemas d js = true ↔ ∀ j ∈ js, isSchema d j = true := by
  induction js with
  | nil => simp [areSchemas]
  | cons j rest ih => rw [areSchemas, Bool.and_eq_true, ih, List.forall_mem_cons]

theorem areNamedSchemas_iff {entries : List (String × Json)} :
    areNamedSchemas d entries = true ↔ ∀ t ∈ entries.map (·.2), isSchema d t = true := by
  induction entries with
  | nil => simp [areNamedSchemas]
  | cons f rest ih =>
    obtain ⟨key, j⟩ := f
    rw [areNamedSchemas, Bool.and_eq_true, ih, List.map_cons, List.forall_mem_cons]

theorem fragment_of_resolve {text : String} (found : Pointer.resolve? document text = some t) :
    plainKeywordOk d .reference (.string text) = true := by
  unfold Pointer.resolve? at found
  unfold plainKeywordOk
  dsimp only
  split at found
  · rename_i same
    cases d <;> simp [same, Pointer.isFragment]
  · rename_i rest same
    split at found
    · rename_i fragment
      cases d with
      | draft2020 => rw [same]
      | draft07 =>
        rw [same]
        change Pointer.isFragment ('/' :: rest) = true
        rw [Pointer.isFragment, fragment]
        · decide
        · exact fun _ _ _ other => absurd other (by decide)
    · cases found
  · cases found

theorem keyword_form {key : String} {value : Json} (takes : (KeywordName.ofKey key).Takes value)
    (leads : ∀ text, KeywordName.ofKey key = .reference → value = .string text → ∃ t, Pointer.resolve? document text = some t) :
    areKeywords d [(key, value)] = true ↔
      (∀ text, KeywordName.ofKey key = .pattern → value = .string text → d = .draft07 → Pattern.isSpelledForSchema text = true) ∧
        ∀ t ∈ Json.schemasUnder (.ofKey key) value, isSchema d t = true := by
  rw [areKeywords.eq_def]
  dsimp only
  rw [areKeywords.eq_def, Bool.and_true]
  generalize KeywordName.ofKey key = name at takes leads
  have none_ : ∀ t ∈ ([] : List Json), isSchema d t = true := List.forall_mem_nil _
  have unspelled : name ≠ .pattern → ∀ text, name = .pattern → value = .string text → d = .draft07 → Pattern.isSpelledForSchema text = true :=
    fun other _ same => absurd same other
  cases name with
  | items | additional =>
    exact ⟨fun form => ⟨unspelled (by decide), List.forall_mem_singleton.2 form⟩, fun all => all.2 _ List.mem_cons_self⟩
  | anyOf =>
    obtain ⟨first, rest, rfl⟩ := takes
    dsimp only
    rw [isSchemaList, Bool.and_eq_true, areSchemas_iff]
    exact ⟨fun all => ⟨unspelled (by decide), List.forall_mem_cons.2 all⟩, fun all => List.forall_mem_cons.1 all.2⟩
  | properties | definitions =>
    obtain ⟨entries, rfl, -⟩ := takes
    dsimp only
    rw [isSchemaObject, areNamedSchemas_iff]
    exact ⟨fun all => ⟨unspelled (by decide), all⟩, fun all => all.2⟩
  | reference =>
    obtain ⟨text, rfl⟩ := takes
    obtain ⟨t, found⟩ := leads text rfl rfl
    exact iff_of_true (fragment_of_resolve found) ⟨unspelled (by decide), none_⟩
  | pattern =>
    obtain ⟨text, rfl⟩ := takes
    dsimp only
    rw [plainKeywordOk]
    refine ⟨fun form => ⟨?_, none_⟩, fun all => ?_⟩
    · rintro _ - ⟨⟩ rfl
      exact form
    · cases d with
      | draft07 => exact all.1 text rfl rfl rfl
      | draft2020 => rfl
  | type =>
    obtain ⟨t, rfl⟩ := takes
    refine iff_of_true ?_ ⟨unspelled (by decide), none_⟩
    dsimp only
    rw [plainKeywordOk, typeNames?_name]
    rfl
  | required =>
    obtain ⟨names, rfl, distinct⟩ := takes
    refine iff_of_true ?_ ⟨unspelled (by decide), none_⟩
    dsimp only
    rw [plainKeywordOk, requiredNames?_strings distinct]
    rfl
  | enumeration | examples =>
    obtain ⟨values, rfl⟩ := takes
    exact iff_of_true rfl ⟨unspelled (by decide), none_⟩
  | text =>
    obtain ⟨s, rfl⟩ := takes
    exact iff_of_true rfl ⟨unspelled (by decide), none_⟩
  | deprecated =>
    obtain ⟨b, rfl⟩ := takes
    exact iff_of_true rfl ⟨unspelled (by decide), none_⟩
  | constant | other => exact iff_of_true rfl ⟨unspelled (by decide), none_⟩
  | defs => cases takes

-- In the older dialect the form of a document is good if its patterns are well spelled.
theorem Json.Plain.isSchema_iff (plain : document.Plain) {s : Json} (inside : document.Within s) :
    isSchema d s = true ↔ ∀ t text, Relation.ReflTransGen Holds s t → t.States .pattern (.string text) → d = .draft07 →
      Pattern.isSpelledForSchema text = true := by
  have deeper : ∀ t, s.Holds t → (isSchema d t = true ↔ ∀ u text, Relation.ReflTransGen Holds t u →
      u.States .pattern (.string text) → d = .draft07 → Pattern.isSpelledForSchema text = true) := by
    intro t holds
    have smaller := holds.sizeOf_lt
    exact plain.isSchema_iff (inside.tail holds)
  rcases plain.form s inside with ⟨b, rfl⟩ | ⟨fields, rfl, -⟩
  · refine iff_of_true rfl fun t text below stated => ?_
    rcases Relation.ReflTransGen.cases_head below with rfl | ⟨u, ⟨_, _, ⟨_, _, ⟨⟩, _⟩, _⟩, _⟩
    obtain ⟨_, _, ⟨⟩, _⟩ := stated
  · have here : ∀ f ∈ fields, (areKeywords d [f] = true ↔
        (∀ text, KeywordName.ofKey f.1 = .pattern → f.2 = .string text → d = .draft07 → Pattern.isSpelledForSchema text = true) ∧
          ∀ t ∈ schemasUnder (.ofKey f.1) f.2, isSchema d t = true) := by
      intro f member
      have leads : ∀ text, KeywordName.ofKey f.1 = .reference → f.2 = .string text → ∃ t, Pointer.resolve? document text = some t := by
        intro text named same
        obtain ⟨t, found, -⟩ := plain.led _ text inside ⟨fields, f.1, rfl, same ▸ member, named⟩
        exact ⟨t, found⟩
      exact keyword_form (plain.taken _ _ _ inside ⟨fields, f.1, rfl, member, rfl⟩) leads
    rw [isSchema, areKeywords_iff]
    constructor
    · intro form t text below stated
      rcases Relation.ReflTransGen.cases_head below with rfl | ⟨u, holds, below⟩
      · obtain ⟨_, key, ⟨⟩, member, named⟩ := stated
        exact ((here _ member).1 (form _ member)).1 text named rfl
      · refine (deeper u holds).1 ?_ t text below stated
        obtain ⟨_, value, ⟨_, key, ⟨⟩, member, rfl⟩, under⟩ := holds
        exact ((here _ member).1 (form _ member)).2 u under
    · intro all f member
      refine (here f member).2 ⟨fun text named same => ?_, fun t under => ?_⟩
      · exact all _ text .refl ⟨fields, f.1, rfl, same ▸ member, named⟩
      · have holds : (object fields).Holds t := ⟨_, f.2, ⟨fields, f.1, rfl, member, rfl⟩, under⟩
        exact (deeper t holds).2 fun u text below => all u text (.head holds below)
termination_by sizeOf s
decreasing_by exact smaller

theorem Json.Plain.references_iff (plain : document.Plain) {s : Json} {rule : Rule} (inside : document.Within s)
    (read : rule? d s = some rule) {text : String} : text ∈ rule.references ↔
      ∃ t, Relation.ReflTransGen Contains s t ∧ t.States .reference (.string text) := by
  have deeper : ∀ t inner, s.Contains t → rule? d t = some inner →
      (text ∈ inner.references ↔ ∃ u, Relation.ReflTransGen Contains t u ∧ u.States .reference (.string text)) := by
    intro t inner contains read
    have smaller := contains.holds.sizeOf_lt
    exact plain.references_iff (inside.tail contains.holds) read
  rcases plain.form s inside with ⟨b, rfl⟩ | ⟨fields, rfl, -⟩
  · refine iff_of_false (fun member => ?_) ?_
    · cases b <;> rw [rule?] at read <;> cases read <;> cases member
    · rintro ⟨t, below, stated⟩
      rcases Relation.ReflTransGen.cases_head below with rfl | ⟨u, ⟨_, _, _, ⟨_, _, ⟨⟩, _⟩, _⟩, _⟩
      obtain ⟨_, _, ⟨⟩, _⟩ := stated
  · have clear := plain.clear inside
    constructor
    · intro reached
      rcases clear.reference_or_inner read reached with stated | ⟨t, inner, contains, read', reached⟩
      · exact ⟨_, .refl, stated⟩
      · obtain ⟨u, below, stated⟩ := (deeper t inner contains read').1 reached
        exact ⟨u, .head contains below, stated⟩
    · rintro ⟨u, below, stated⟩
      rcases Relation.ReflTransGen.cases_head below with rfl | ⟨t, contains, below⟩
      · obtain ⟨declared, list, rfl, -, given, -⟩ := clear.rule_given read
        obtain ⟨_, key, ⟨⟩, member, named⟩ := stated
        obtain ⟨part, here, listed⟩ := given _ member
        dsimp only at here
        rw [named] at here
        cases here with
        | reference => exact mem_keywordsReferences.2 ⟨_, listed _ rfl, List.mem_cons_self⟩
        | idle idle => cases idle
      · obtain ⟨inner, read', among⟩ := clear.inner_references read contains
        exact among ((deeper t inner contains read').2 ⟨u, below, stated⟩)
termination_by sizeOf s
decreasing_by exact smaller

theorem Json.Plain.exists_rule (plain : document.Plain) {s : Json} (inside : document.Within s)
    (patterns : ∀ t text, Relation.ReflTransGen Contains s t → t.States .pattern (.string text) → ∃ expression, Pattern.ofSchema? text = some expression) :
    ∃ rule, rule? d s = some rule := by
  have deeper : ∀ t, s.Contains t → ∃ rule, rule? d t = some rule := by
    intro t contains
    have smaller := contains.holds.sizeOf_lt
    exact plain.exists_rule (inside.tail contains.holds) fun u text below => patterns u text (.head contains below)
  rcases plain.form s inside with ⟨b, rfl⟩ | ⟨fields, rfl, -⟩
  · cases b <;> rw [rule?] <;> exact ⟨_, rfl⟩
  · exact (plain.clear inside).exists_rule deeper fun text stated => patterns _ text .refl stated
termination_by sizeOf s
decreasing_by exact smaller

-- What is read off a document can be used, and only then.
theorem Json.Plain.reads (plain : document.Plain) {book : RuleBook} (made : RuleBook.ofDocument? document = some book) :
    book.Reads (Dialect.ofDocument document) document := by
  unfold RuleBook.ofDocument? at made
  dsimp only at made
  generalize Dialect.ofDocument document = d at made
  cases form : isSchema d document with
  | false =>
    rw [form] at made
    cases made
  | true =>
    rw [form] at made
    obtain ⟨root, read, made⟩ := Option.bind_eq_some_iff.1 made
    obtain ⟨targets, ended, made⟩ := Option.bind_eq_some_iff.1 made
    cases made
    have covers : ∀ s rule, document.Within s → rule? d s = some rule → rule.references ⊆ targets.map (·.1) →
        (RuleBook.mk root targets).Covers s := fun s rule inside read among t text below stated =>
      among ((plain.references_iff inside read).2 ⟨t, below, stated⟩)
    have good : ∀ s rule, document.Within s → rule? d s = some rule → ∀ text ∈ rule.references,
        ∃ t, Pointer.resolve? document text = some t ∧ document.Within t := by
      intro s rule inside read text reached
      obtain ⟨t, below, stated⟩ := (plain.references_iff inside read).1 reached
      exact plain.led t text (inside.trans (below.lift id fun _ _ contains => contains.holds)) stated
    have start : Frontier d document (fun text => ∃ t, Pointer.resolve? document text = some t ∧ document.Within t) [] root.references :=
      ⟨nofun, nofun, good document root .refl read⟩
    have closed : ∀ target rule, (∃ t, Pointer.resolve? document target = some t ∧ document.Within t) →
        readAt? d document target = some rule → ∀ text ∈ rule.references,
          ∃ t, Pointer.resolve? document text = some t ∧ document.Within t := by
      rintro target rule ⟨t, found, within⟩ read
      unfold readAt? at read
      rw [found] at read
      exact good t rule within read
    obtain ⟨last, -, later⟩ := start.targets? closed ended
    refine ⟨read, covers document root .refl read later, fun e member => ?_⟩
    obtain ⟨⟨t, found, within⟩, read⟩ := last.entry e member
    unfold readAt? at read
    rw [found] at read
    refine ⟨t, found, within, read, covers t e.2 within read fun text reached => ?_⟩
    exact (last.inner e member text reached).resolve_right List.not_mem_nil

theorem RuleBook.Reads.rule {book : RuleBook} (reads : book.Reads d document) (plain : document.Plain) {s : Json}
    (used : Relation.ReflTransGen (fun before after => before.Uses document after) document s) :
    document.Within s ∧ (∃ rule, rule? d s = some rule) ∧ book.Covers s := by
  induction used with
  | refl => exact ⟨.refl, ⟨_, reads.root⟩, reads.covered⟩
  | @tail s t _ uses ih =>
    obtain ⟨inside, ⟨rule, read⟩, covered⟩ := ih
    rcases uses with contains | ⟨text, stated, found⟩
    · obtain ⟨_, _, _, ⟨fields, _, rfl, _⟩, _⟩ := id contains
      obtain ⟨inner, read', -⟩ := (plain.clear inside).inner_references read contains
      exact ⟨inside.tail contains.holds, ⟨inner, read'⟩, covered.inner contains⟩
    · obtain ⟨e, member, rfl⟩ := List.mem_map.1 (covered s text .refl stated)
      obtain ⟨t', found', within, read', covered'⟩ := reads.target e member
      cases found.symm.trans found'
      exact ⟨within, ⟨_, read'⟩, covered'⟩

end

-- Checking comes to a reference, which is written in the document and leads into it.
def Json.Comes (document : Json) (text : String) : Prop :=
  text ∈ referencesIn document ∧ ∃ t, Pointer.resolve? document text = some t ∧
    Relation.ReflTransGen (fun before after => before.Uses document after) document t ∧ document.Within t

theorem Json.Plain.comes {document : Json} (plain : document.Plain) {d : Dialect} {s : Json} {rule : Rule}
    (used : Relation.ReflTransGen (fun before after => before.Uses document after) document s) (inside : document.Within s)
    (read : rule? d s = some rule) : ∀ text ∈ rule.references, document.Comes text := by
  intro text reached
  obtain ⟨t, below, stated⟩ := (plain.references_iff inside read).1 reached
  have inside' : document.Within t := inside.trans (below.lift id fun _ _ contains => contains.holds)
  obtain ⟨u, found, within⟩ := plain.led t text inside' stated
  refine ⟨Within.references inside' stated, u, found, ?_, within⟩
  exact (used.trans (below.lift id fun _ _ contains => .inl contains)).tail (.inr ⟨text, stated, found⟩)

theorem Json.Plain.usable_iff {document : Json} (plain : document.Plain) :
    (∃ book, RuleBook.ofDocument? document = some book) ↔ document.Usable .builtIn := by
  have form := plain.isSchema_iff (d := Dialect.ofDocument document) (s := document) .refl
  constructor
  · rintro ⟨book, made⟩
    have reads := plain.reads made
    refine ⟨fun older s text inside stated => ?_, fun s text used stated => ?_⟩
    · have good : isSchema (Dialect.ofDocument document) document = true := by
        unfold RuleBook.ofDocument? at made
        dsimp only at made
        cases good : isSchema (Dialect.ofDocument document) document with
        | true => rfl
        | false =>
          rw [good] at made
          cases made
      exact form.1 good s text inside stated older
    · obtain ⟨inside, ⟨rule, read⟩, -⟩ := reads.rule plain used
      obtain ⟨fields, key, rfl, member, named⟩ := stated
      obtain ⟨declared, list, rfl, -, given, -⟩ := (plain.clear inside).rule_given read
      obtain ⟨part, here, -⟩ := given _ member
      dsimp only at here
      rw [named] at here
      cases here with
      | pattern read => exact (congrArg (fun found => (found.map Pattern.search).isSome) read : _)
      | idle idle => cases idle
  · intro usable
    have good : isSchema (Dialect.ofDocument document) document = true :=
      form.2 fun s text inside stated older => usable.allowed older s text inside stated
    have rule : ∀ s, Relation.ReflTransGen (fun before after => before.Uses document after) document s → document.Within s →
        ∃ rule, rule? (Dialect.ofDocument document) s = some rule := by
      intro s used inside
      refine plain.exists_rule inside fun t text below stated => ?_
      have found := usable.readable t text (used.trans (below.lift id fun _ _ contains => .inl contains)) stated
      obtain ⟨search, found⟩ := Option.isSome_iff_exists.1 found
      obtain ⟨expression, read, -⟩ := Option.map_eq_some_iff.1 found
      exact ⟨expression, read⟩
    obtain ⟨root, read⟩ := rule document .refl .refl
    have start : Frontier (Dialect.ofDocument document) document document.Comes [] root.references :=
      ⟨nofun, nofun, plain.comes .refl .refl read⟩
    have closed : ∀ target inner, document.Comes target → readAt? (Dialect.ofDocument document) document target = some inner →
        ∀ text ∈ inner.references, document.Comes text := by
      rintro target inner ⟨-, t, found, used, inside⟩ read
      unfold readAt? at read
      rw [found] at read
      exact plain.comes used inside read
    obtain ⟨targets, ended⟩ := start.exists_targets closed fun target comes => by
      obtain ⟨written, t, found, used, inside⟩ := comes
      obtain ⟨inner, read⟩ := rule t used inside
      refine ⟨written, inner, ?_⟩
      unfold readAt?
      rw [found]
      exact read
    refine ⟨⟨root, targets⟩, ?_⟩
    unfold RuleBook.ofDocument?
    dsimp only
    rw [good, read]
    change (targets? _ _ _ _ _ >>= fun targets => some (RuleBook.mk root targets)) = _
    rw [ended]
    rfl

-- The engine that is built in does what is relied on.
theorem Engines.builtIn_lawful : Engines.builtIn.schema.Lawful .builtIn := by
  have made : ∀ document check, Engines.builtIn.schema document = .ok check →
      ∃ book, RuleBook.ofDocument? document = some book ∧ check = book.check := by
    intro document check read
    unfold Engines.builtIn at read
    dsimp only at read
    cases found : RuleBook.ofDocument? document with
    | none =>
      rw [found] at read
      cases read
    | some book =>
      rw [found] at read
      cases read
      exact ⟨book, rfl, rfl⟩
  have tells : ∀ (document : Json) (book : RuleBook) (j : Json), document.Plain → RuleBook.ofDocument? document = some book → j.Settled →
      (book.check j).Tells (Accepts .builtIn document document j) document.Guarded := by
    intro document book j plain found settled
    have reads := plain.reads found
    refine ((reads.violations_tells plain .refl reads.root reads.covered settled).map).weaken fun guarded => ⟨guarded, nofun⟩
  refine ⟨fun document plain => ?_, fun document check j found plain read settled all => ?_, fun document check j plain guarded read settled => ?_⟩
  · rw [← plain.usable_iff]
    constructor
    · rintro ⟨check, read⟩
      obtain ⟨book, found, -⟩ := made document check read
      exact ⟨book, found⟩
    · rintro ⟨book, found⟩
      refine ⟨book.check, ?_⟩
      unfold Engines.builtIn
      dsimp only
      rw [found]
  · obtain ⟨book, made, rfl⟩ := made document check read
    have tells := tells document book j plain made settled
    unfold Evaluation.all? at all
    cases ends : (book.check j).ends with
    | false =>
      rw [ends] at all
      cases all
    | true =>
      rw [ends] at all
      cases all
      exact ⟨tells.favour ends, fun accepted => of_not_not fun some => tells.against some accepted⟩
  · obtain ⟨book, made, rfl⟩ := made document check read
    exact (tells document book j plain made settled).ending guarded

end TwinShape
