import TwinShape.Proofs.Schema.Meaning

namespace TwinShape

-- The rules that are read off schemas here, and what they leave out.
section
variable {d : Dialect}

theorem rules?_iff {js : List Json} {rules : List Rule} :
    rules? d js = some rules ↔ List.Forall₂ (fun j rule => rule? d j = some rule) js rules := by
  induction js generalizing rules with
  | nil =>
    rw [rules?, List.forall₂_nil_left_iff, Option.some.injEq, eq_comm]
  | cons j rest ih =>
    rw [rules?]
    constructor
    · intro read
      obtain ⟨rule, first, read⟩ := Option.bind_eq_some_iff.1 read
      obtain ⟨others, later, read⟩ := Option.bind_eq_some_iff.1 read
      cases read
      exact .cons first (ih.1 later)
    · rintro (_ | ⟨first, later⟩)
      rw [first, ih.2 later]
      rfl

theorem declared?_iff {properties : List (String × Json)} {declared : List (String × Rule)} :
    declared? d properties = some declared ↔
      List.Forall₂ (fun p e => e.1 = p.1 ∧ rule? d p.2 = some e.2) properties declared := by
  induction properties generalizing declared with
  | nil => rw [declared?, List.forall₂_nil_left_iff, Option.some.injEq, eq_comm]
  | cons p rest ih =>
    obtain ⟨name, j⟩ := p
    rw [declared?]
    constructor
    · intro read
      obtain ⟨rule, first, read⟩ := Option.bind_eq_some_iff.1 read
      obtain ⟨others, later, read⟩ := Option.bind_eq_some_iff.1 read
      cases read
      exact .cons ⟨rfl, first⟩ (ih.1 later)
    · rintro (_ | ⟨⟨rfl, first⟩, later⟩)
      rw [first, ih.2 later]
      rfl

theorem exists_forall₂ {R : α → β → Prop} {as : List α} (each : ∀ a ∈ as, ∃ b, R a b) :
    ∃ bs, List.Forall₂ R as bs := by
  induction as with
  | nil => exact ⟨[], .nil⟩
  | cons a rest ih =>
    obtain ⟨b, head⟩ := each a List.mem_cons_self
    obtain ⟨bs, tail⟩ := ih fun c member => each c (List.mem_cons_of_mem _ member)
    exact ⟨b :: bs, .cons head tail⟩

theorem keywords?_iff {declared : Option (List (String × Rule))} {all left : List (String × Json)}
    {list : List Keyword} :
    keywords? d declared all left = some list ↔
      ∃ parts, List.Forall₂ (fun f part => keyword? d declared all (.ofKey f.1) f.2 = some part) left parts ∧
        list = parts.flatMap Option.toList := by
  induction left generalizing list with
  | nil =>
    rw [keywords?]
    constructor
    · rintro ⟨⟩
      exact ⟨[], .nil, rfl⟩
    · rintro ⟨_, ⟨⟩, rfl⟩
      rfl
  | cons f rest ih =>
    obtain ⟨key, value⟩ := f
    rw [keywords?]
    constructor
    · intro read
      obtain ⟨part, first, read⟩ := Option.bind_eq_some_iff.1 read
      obtain ⟨others, later, read⟩ := Option.bind_eq_some_iff.1 read
      cases read
      obtain ⟨parts, each, rfl⟩ := ih.1 later
      exact ⟨part :: parts, .cons first each, rfl⟩
    · rintro ⟨parts, each, rfl⟩
      cases each with
      | cons first later =>
        rw [first, ih.2 ⟨_, later, rfl⟩]
        rfl

def declaredIn? (d : Dialect) (fields : List (String × Json)) : Option (Option (List (String × Rule))) :=
  match Table.get? fields "properties" with
  | some (.object properties) => (declared? d properties).map some
  | _ => some none

theorem declaredIn?_eq (d : Dialect) (fields : List (String × Json)) :
    (match Json.memberFields? "properties" fields with
      | some ⟨properties, _⟩ => (declared? d properties).map some
      | none => some none) = declaredIn? d fields := by
  unfold declaredIn? Json.memberFields?
  rw [← Json.member?_eq]
  rcases Json.member? "properties" fields with _ | ⟨j, smaller⟩
  · rfl
  · cases j <;> rfl

theorem rule?_object (d : Dialect) (fields : List (String × Json)) :
    rule? d (.object fields) = match loneReference? d fields with
      | some reference => some (.keywords [.reference reference])
      | none => (declaredIn? d fields).bind fun declared =>
        (keywords? d declared fields fields).map .keywords := by
  rw [rule?]
  cases loneReference? d fields with
  | some reference => rfl
  | none =>
    dsimp only
    rw [← declaredIn?_eq]
    rcases Json.memberFields? "properties" fields with _ | ⟨properties, smaller⟩
    · change (keywords? d none fields fields).bind _ = (keywords? d none fields fields).map _
      cases keywords? d none fields fields <;> rfl
    · dsimp only
      cases declared? d properties with
      | none => rfl
      | some declared =>
        change (keywords? d (some declared) fields fields).bind _ =
          (keywords? d (some declared) fields fields).map _
        cases keywords? d (some declared) fields fields <;> rfl

end

-- What is made of a keyword with what belongs under it. Declared properties are checked
-- for themselves unless others are checked along with them.
inductive Given (d : Dialect) (declared : Option (List (String × Rule))) (apart : Bool) : KeywordName → Json → Option Keyword → Prop
  | reference : Given d declared apart .reference (.string text) (some (.reference text))
  | type (t : TypeName) : Given d declared apart .type (.string t.name) (some (.type [t]))
  | properties (here : apart = true) (same : declared = some rules) :
      Given d declared apart .properties value (some (.properties rules))
  | left (here : apart = false) : Given d declared apart .properties value none
  | allowed : Given d declared apart .additional (.bool true) none
  | forbidden : Given d declared apart .additional (.bool false) (some (declared.elim .noProperties .closed))
  | additional (read : rule? d (.object fields) = some rule) :
      Given d declared apart .additional (.object fields) (some (.additional (declared.getD []) rule))
  | required (distinct : names.Nodup) : Given d declared apart .required (Json.strings names) (some (.required names))
  | items (read : rule? d value = some rule) : Given d declared apart .items value (some (.items rule))
  | anyOf (read : List.Forall₂ (fun j rule => rule? d j = some rule) schemas rules) :
      Given d declared apart .anyOf (.array schemas) (some (.anyOf rules))
  | enumeration : Given d declared apart .enumeration (.array values) (some (.enumeration values))
  | constant : Given d declared apart .constant value (some (.constant value))
  | pattern (read : Pattern.ofSchema? text = some expression) :
      Given d declared apart .pattern (.string text) (some (.pattern text expression))
  | idle (idle : name.isIdle) : Given d declared apart name value none

inductive Declares (d : Dialect) (fields : List (String × Json)) : Option (List (String × Rule)) → Prop
  | none (absent : ∀ f ∈ fields, KeywordName.ofKey f.1 ≠ .properties) : Declares d fields none
  | some (stated : ("properties", .object entries) ∈ fields) (distinct : (Table.keys entries).Nodup)
      (each : List.Forall₂ (fun p e => e.1 = p.1 ∧ rule? d p.2 = some e.2) entries rules) : Declares d fields (some rules)

structure Json.Clear (fields : List (String × Json)) : Prop where
  distinct : (Table.keys fields).Nodup
  taken : ∀ f ∈ fields, (KeywordName.ofKey f.1).Takes f.2
  schemas : ∀ t, (Json.object fields).Holds t → (∃ b, t = .bool b) ∨ ∃ inner, t = .object inner
  lone : ∀ f ∈ fields, KeywordName.ofKey f.1 = .reference → ∀ g ∈ fields, KeywordName.ofKey g.1 = .reference ∨ (KeywordName.ofKey g.1).isIdle

theorem Json.Plain.clear {document : Json} (plain : document.Plain) (inside : document.Within (.object fields)) :
    Json.Clear fields := by
  constructor
  · rcases plain.form _ inside with ⟨b, ⟨⟩⟩ | ⟨_, ⟨⟩, distinct⟩
    exact distinct
  · exact fun f member => plain.taken _ _ _ inside ⟨fields, f.1, rfl, member, rfl⟩
  · intro t holds
    exact (plain.form _ (inside.tail holds)).imp_right fun ⟨inner, same, _⟩ => ⟨inner, same⟩
  · exact fun f member same g other => plain.lone _ f.2 _ g.2 inside ⟨fields, f.1, rfl, member, same⟩ ⟨fields, g.1, rfl, other, rfl⟩

theorem KeywordName.mem_all (key : String) (known : ofKey key ≠ .other) : (key, ofKey key) ∈ all := by
  unfold ofKey at known ⊢
  cases found : all.lookup key with
  | none =>
    rw [found] at known
    exact absurd rfl known
  | some name =>
    obtain ⟨before, after, same, -⟩ := List.lookup_eq_some_iff.1 found
    rw [same]
    exact List.mem_append_right _ List.mem_cons_self

theorem KeywordName.ofKey_reference {key : String} (same : ofKey key = .reference) : key = "$ref" := by
  have member := mem_all key (by rw [same]; nofun)
  rw [same] at member
  simpa [all] using member

theorem KeywordName.ofKey_properties {key : String} (same : ofKey key = .properties) : key = "properties" := by
  have member := mem_all key (by rw [same]; nofun)
  rw [same] at member
  simpa [all] using member

namespace Json.Clear
variable {d : Dialect} {fields : List (String × Json)} (clear : Clear fields)
include clear

omit clear in
theorem field (member : f ∈ fields) (under : t ∈ schemasUnder (.ofKey f.1) f.2) : (object fields).Holds t :=
  ⟨_, f.2, ⟨fields, f.1, rfl, member, rfl⟩, under⟩

theorem properties_of_mem (member : f ∈ fields) (name : KeywordName.ofKey f.1 = .properties) :
    ∃ entries, f.2 = .object entries ∧ (Table.keys entries).Nodup ∧ Table.get? fields "properties" = some f.2 := by
  obtain ⟨key, value⟩ := f
  have takes := clear.taken _ member
  cases KeywordName.ofKey_properties name
  obtain ⟨entries, same, distinct⟩ := takes
  exact ⟨entries, same, distinct, Table.get?_of_mem clear.distinct member⟩

omit clear in
theorem loneReference?_eq (found : loneReference? d fields = some text) : ("$ref", .string text) ∈ fields := by
  unfold loneReference? at found
  cases d with
  | draft2020 => cases found
  | draft07 =>
    dsimp only at found
    cases got : Table.get? fields "$ref" with
    | none =>
      rw [got] at found
      cases found
    | some value =>
      rw [got] at found
      cases value <;> cases found
      exact Table.mem_of_get? got

theorem given {declared : Option (List (String × Rule))} (member : f ∈ fields)
    (read : keyword? d declared fields (.ofKey f.1) f.2 = some part) :
    Given d declared (leavesProperties fields) (.ofKey f.1) f.2 part := by
  have takes := clear.taken f member
  have bool : KeywordName.ofKey f.1 = .additional → (∃ b, f.2 = .bool b) ∨ ∃ inner, f.2 = .object inner := by
    intro same
    refine clear.schemas f.2 (field member ?_)
    rw [same]
    exact List.mem_cons_self
  generalize KeywordName.ofKey f.1 = name at takes bool read
  generalize f.2 = value at takes bool read
  rw [keyword?.eq_def] at read
  cases name with
  | reference =>
    obtain ⟨text, rfl⟩ := takes
    cases read
    exact .reference
  | type =>
    obtain ⟨t, rfl⟩ := takes
    dsimp only at read
    rw [typeNames?_name] at read
    cases read
    exact .type t
  | properties =>
    dsimp only at read
    generalize leavesProperties fields = apart at read ⊢
    cases apart with
    | true =>
      obtain ⟨rules, same, rfl⟩ := Option.map_eq_some_iff.1 read
      exact .properties rfl same
    | false =>
      cases read
      exact .left rfl
  | additional =>
    rcases bool rfl with ⟨b, rfl⟩ | ⟨inner, rfl⟩
    · cases b <;> cases read
      · exact .forbidden
      · exact .allowed
    · obtain ⟨rule, inside, same⟩ := Option.bind_eq_some_iff.1 read
      cases same
      exact .additional inside
  | required =>
    obtain ⟨names, rfl, distinct⟩ := takes
    dsimp only at read
    rw [requiredNames?_strings distinct] at read
    cases read
    exact .required distinct
  | items =>
    obtain ⟨rule, inside, same⟩ := Option.bind_eq_some_iff.1 read
    cases same
    exact .items inside
  | anyOf =>
    obtain ⟨first, rest, rfl⟩ := takes
    obtain ⟨rules, inside, same⟩ := Option.bind_eq_some_iff.1 read
    cases same
    exact .anyOf (rules?_iff.1 inside)
  | enumeration =>
    obtain ⟨values, rfl⟩ := takes
    cases read
    exact .enumeration
  | constant =>
    cases read
    exact .constant
  | pattern =>
    obtain ⟨text, rfl⟩ := takes
    obtain ⟨expression, found, rfl⟩ := Option.map_eq_some_iff.1 read
    exact .pattern found
  | definitions | defs | text | examples | deprecated | other =>
    cases read
    exact .idle rfl

theorem declares (found : declaredIn? d fields = some declared) : Declares d fields declared := by
  unfold declaredIn? at found
  cases got : Table.get? fields "properties" with
  | none =>
    rw [got] at found
    cases found
    refine .none fun f member same => ?_
    obtain ⟨_, _, _, here⟩ := clear.properties_of_mem member same
    cases got.symm.trans here
  | some value =>
    rw [got] at found
    have member := Table.mem_of_get? got
    obtain ⟨entries, rfl, distinct, -⟩ := clear.properties_of_mem member rfl
    obtain ⟨rules, each, rfl⟩ := Option.map_eq_some_iff.1 found
    exact .some member distinct (declared?_iff.1 each)

theorem rule_given (read : rule? d (.object fields) = some rule) : ∃ declared list, rule = .keywords list ∧
    Declares d fields declared ∧
    (∀ f ∈ fields, ∃ part, Given d declared (leavesProperties fields) (.ofKey f.1) f.2 part ∧ ∀ k ∈ part, k ∈ list) ∧
    ∀ k ∈ list, ∃ f ∈ fields, Given d declared (leavesProperties fields) (.ofKey f.1) f.2 (some k) := by
  rw [rule?_object] at read
  cases lone : loneReference? d fields with
  | some text =>
    rw [lone] at read
    cases read
    have member := loneReference?_eq lone
    have others := clear.lone _ member rfl
    refine ⟨none, _, rfl, .none fun f inside same => ?_, fun f inside => ?_, List.forall_mem_singleton.2 ⟨_, member, .reference⟩⟩
    · have other := others f inside
      rw [same] at other
      rcases other with other | other <;> cases other
    rcases others f inside with same | idle
    · obtain ⟨key, value⟩ := f
      cases KeywordName.ofKey_reference same
      cases (Table.get?_of_mem clear.distinct inside).symm.trans (Table.get?_of_mem clear.distinct member)
      refine ⟨_, .reference, ?_⟩
      rintro _ ⟨⟩
      exact List.mem_cons_self
    · exact ⟨none, .idle idle, nofun⟩
  | none =>
    rw [lone] at read
    obtain ⟨declared, found, read⟩ := Option.bind_eq_some_iff.1 read
    obtain ⟨list, listed, rfl⟩ := Option.map_eq_some_iff.1 read
    obtain ⟨parts, each, rfl⟩ := keywords?_iff.1 listed
    refine ⟨declared, _, rfl, clear.declares found, fun f inside => ?_, fun k listed => ?_⟩
    · obtain ⟨part, here, read⟩ := forall₂_right each inside
      exact ⟨part, clear.given inside read, fun k same => List.mem_flatMap.2 ⟨part, here, Option.mem_toList.2 same⟩⟩
    · obtain ⟨part, here, same⟩ := List.mem_flatMap.1 listed
      obtain ⟨f, inside, read⟩ := forall₂_left each here
      cases Option.mem_toList.1 same
      exact ⟨f, inside, clear.given inside read⟩

theorem exists_declared (inner : ∀ t, (object fields).Contains t → ∃ rule, rule? d t = some rule) : ∃ declared,
    declaredIn? d fields = some declared ∧ ∀ f ∈ fields, KeywordName.ofKey f.1 = .properties → declared.isSome = true := by
  unfold declaredIn?
  cases found : Table.get? fields "properties" with
  | none =>
    refine ⟨none, rfl, fun f member name => ?_⟩
    obtain ⟨_, _, _, here⟩ := clear.properties_of_mem member name
    cases found.symm.trans here
  | some value =>
    have member := Table.mem_of_get? found
    obtain ⟨entries, rfl, -⟩ := clear.properties_of_mem member rfl
    obtain ⟨declared, each⟩ : ∃ declared : List (String × Rule),
        List.Forall₂ (fun p e => e.1 = p.1 ∧ rule? d p.2 = some e.2) entries declared := by
      refine exists_forall₂ fun p listed => ?_
      obtain ⟨rule, read⟩ := inner p.2 ⟨.properties, _, nofun, ⟨fields, _, rfl, member, rfl⟩, List.mem_map_of_mem listed⟩
      exact ⟨(p.1, rule), rfl, read⟩
    refine ⟨some declared, ?_, fun _ _ _ => rfl⟩
    dsimp only
    rw [declared?_iff.2 each]
    rfl

omit clear in
theorem exists_keyword {declared : Option (List (String × Rule))} {name : KeywordName} {value : Json}
    (takes : name.Takes value)
    (below : name ≠ .definitions → ∀ t ∈ schemasUnder name value, ∃ rule, rule? d t = some rule)
    (given : name = .properties → declared.isSome = true)
    (pattern : ∀ text, name = .pattern → value = .string text → ∃ expression, Pattern.ofSchema? text = some expression) :
    ∃ part, keyword? d declared fields name value = some part := by
  rw [keyword?.eq_def]
  cases name with
  | reference =>
    obtain ⟨text, rfl⟩ := takes
    exact ⟨_, rfl⟩
  | type =>
    obtain ⟨t, rfl⟩ := takes
    dsimp only
    rw [typeNames?_name]
    exact ⟨_, rfl⟩
  | properties =>
    obtain ⟨rules, rfl⟩ := Option.isSome_iff_exists.1 (given rfl)
    cases leavesProperties fields <;> exact ⟨_, rfl⟩
  | additional =>
    obtain ⟨rule, read⟩ := below (by decide) value List.mem_cons_self
    dsimp only
    split
    · exact ⟨_, rfl⟩
    · exact ⟨_, rfl⟩
    · rw [read]
      exact ⟨_, rfl⟩
  | required =>
    obtain ⟨names, rfl, distinct⟩ := takes
    dsimp only
    rw [requiredNames?_strings distinct]
    exact ⟨_, rfl⟩
  | items =>
    obtain ⟨rule, read⟩ := below (by decide) value List.mem_cons_self
    dsimp only
    rw [read]
    exact ⟨_, rfl⟩
  | anyOf =>
    obtain ⟨first, rest, rfl⟩ := takes
    obtain ⟨rules, read⟩ : ∃ rules, List.Forall₂ (fun t rule => rule? d t = some rule) (first :: rest) rules :=
      exists_forall₂ (below (by decide))
    dsimp only
    rw [rules?_iff.2 read]
    exact ⟨_, rfl⟩
  | enumeration =>
    obtain ⟨values, rfl⟩ := takes
    exact ⟨_, rfl⟩
  | pattern =>
    obtain ⟨text, rfl⟩ := takes
    obtain ⟨expression, read⟩ := pattern text rfl rfl
    dsimp only
    rw [read]
    exact ⟨_, rfl⟩
  | constant | definitions | defs | text | examples | deprecated | other => exact ⟨_, rfl⟩

-- There is a rule if the schemas inside have one and the pattern can be read.
theorem exists_rule (inner : ∀ t, (object fields).Contains t → ∃ rule, rule? d t = some rule)
    (pattern : ∀ text, (object fields).States .pattern (.string text) → ∃ expression, Pattern.ofSchema? text = some expression) :
    ∃ rule, rule? d (.object fields) = some rule := by
  rw [rule?_object]
  cases loneReference? d fields with
  | some text => exact ⟨_, rfl⟩
  | none =>
    obtain ⟨declared, found, given⟩ := clear.exists_declared inner
    obtain ⟨parts, each⟩ : ∃ parts, List.Forall₂ (fun f part => keyword? d declared fields (.ofKey f.1) f.2 = some part) fields parts := by
      refine exists_forall₂ fun f member => exists_keyword (clear.taken f member) (fun other t under => ?_) (given f member)
        fun text named same => ?_
      · exact inner t ⟨_, f.2, other, ⟨fields, f.1, rfl, member, rfl⟩, under⟩
      · exact pattern text ⟨fields, f.1, rfl, same ▸ member, named⟩
    dsimp only
    rw [found, Option.bind_some, keywords?_iff.2 ⟨parts, each, rfl⟩]
    exact ⟨_, rfl⟩

end Json.Clear

theorem mem_keywordsReferences {list : List Keyword} :
    text ∈ keywordsReferences list ↔ ∃ k ∈ list, text ∈ k.references := by
  induction list with
  | nil => simp [keywordsReferences]
  | cons k rest ih => simp [keywordsReferences, ih]

theorem mem_declaredReferences {declared : List (String × Rule)} :
    text ∈ declaredReferences declared ↔ ∃ e ∈ declared, text ∈ e.2.references := by
  induction declared with
  | nil => simp [declaredReferences]
  | cons e rest ih => simp [declaredReferences, ih]

theorem mem_rulesReferences {rules : List Rule} :
    text ∈ rulesReferences rules ↔ ∃ rule ∈ rules, text ∈ rule.references := by
  induction rules with
  | nil => simp [rulesReferences]
  | cons rule rest ih => simp [rulesReferences, ih]

theorem additional_of_stays (stays : leavesProperties fields = false) :
    ∃ value, ("additionalProperties", value) ∈ fields ∧
    (value = .bool false ∨ ∃ inner, value = .object inner) := by
  unfold leavesProperties at stays
  split at stays
  · rename_i found
    exact ⟨_, Table.mem_of_get? found, .inl rfl⟩
  · rename_i inner found
    exact ⟨_, Table.mem_of_get? found, .inr ⟨inner, rfl⟩⟩
  · cases stays

namespace Json.Clear
variable {d : Dialect} {fields : List (String × Json)} (clear : Clear fields)
include clear

theorem declared_rule (declares : Declares d fields declared) (member : (key, value) ∈ fields)
    (named : KeywordName.ofKey key = .properties) (under : t ∈ schemasUnder .properties value) :
    ∃ rules e, declared = some rules ∧ e ∈ rules ∧ rule? d t = some e.2 := by
  obtain ⟨entries, rfl, -, found⟩ := clear.properties_of_mem member named
  obtain ⟨p, entry, rfl⟩ := List.mem_map.1 under
  cases declares with
  | none absent => exact absurd named (absent _ member)
  | @some entries' rules stated distinct each =>
    cases found.symm.trans (Table.get?_of_mem clear.distinct stated)
    obtain ⟨e, among, -, read⟩ := forall₂_right each entry
    exact ⟨rules, e, rfl, among, read⟩

theorem inner_references (read : rule? d (.object fields) = some rule) (contains : (object fields).Contains t) :
    ∃ inner, rule? d t = some inner ∧ inner.references ⊆ rule.references := by
  obtain ⟨declared, list, rfl, declares, given, -⟩ := clear.rule_given read
  have listed : ∀ k ∈ list, k.references ⊆ (Rule.keywords list).references :=
    fun k inside text member => mem_keywordsReferences.2 ⟨k, inside, member⟩
  obtain ⟨name, value, other, ⟨_, key, ⟨⟩, member, named⟩, under⟩ := contains
  obtain ⟨part, here, all⟩ := given _ member
  dsimp only at here
  rw [named] at here
  cases here with
  | items inside =>
    cases List.mem_singleton.1 under
    exact ⟨_, inside, listed _ (all _ rfl)⟩
  | allowed =>
    cases List.mem_singleton.1 under
    exact ⟨.anything, by rw [rule?], List.nil_subset _⟩
  | forbidden =>
    cases List.mem_singleton.1 under
    exact ⟨.nothing, by rw [rule?], List.nil_subset _⟩
  | additional inside =>
    cases List.mem_singleton.1 under
    exact ⟨_, inside, fun text found => listed _ (all _ rfl) (List.mem_append_right _ found)⟩
  | anyOf inside =>
    obtain ⟨rule, member, found⟩ := forall₂_right inside under
    exact ⟨rule, found, fun text found => listed _ (all _ rfl) (mem_rulesReferences.2 ⟨rule, member, found⟩)⟩
  | properties apart same =>
    obtain ⟨rules, e, known, among, read⟩ := clear.declared_rule declares member named under
    cases same.symm.trans known
    exact ⟨e.2, read, fun text found => listed _ (all _ rfl) (mem_declaredReferences.2 ⟨e, among, found⟩)⟩
  | left apart =>
    obtain ⟨rules, e, rfl, among, read⟩ := clear.declared_rule declares member named under
    refine ⟨e.2, read, fun text found => ?_⟩
    have reached : text ∈ declaredReferences rules := mem_declaredReferences.2 ⟨e, among, found⟩
    -- They are left to the keyword that looks at all properties.
    obtain ⟨value, additional, form⟩ := additional_of_stays apart
    obtain ⟨part, here, all⟩ := given _ additional
    rcases form with rfl | ⟨inner, rfl⟩
    · cases here with
      | forbidden => exact listed _ (all _ rfl) reached
      | idle idle => cases idle
    · cases here with
      | additional => exact listed _ (all _ rfl) (List.mem_append_left _ reached)
      | idle idle => cases idle
  | idle idle => cases name <;> contradiction
  | _ => cases under

theorem reference_or_inner (read : rule? d (.object fields) = some rule) (reached : text ∈ rule.references) :
    (object fields).States .reference (.string text) ∨
      ∃ t inner, (object fields).Contains t ∧ rule? d t = some inner ∧ text ∈ inner.references := by
  obtain ⟨declared, list, rfl, declares, -, given⟩ := clear.rule_given read
  have property : ∀ rules, declared = some rules → text ∈ declaredReferences rules →
      ∃ t inner, (object fields).Contains t ∧ rule? d t = some inner ∧ text ∈ inner.references := by
    rintro rules rfl reached
    cases declares with
    | some stated distinct each =>
      obtain ⟨e, among, found⟩ := mem_declaredReferences.1 reached
      obtain ⟨p, entry, -, read⟩ := forall₂_left each among
      exact ⟨p.2, e.2, ⟨.properties, _, nofun, ⟨fields, _, rfl, stated, rfl⟩, List.mem_map_of_mem entry⟩, read, found⟩
  obtain ⟨k, member, reached⟩ := mem_keywordsReferences.1 reached
  obtain ⟨⟨key, value⟩, stated, here⟩ := given k member
  dsimp only at here
  have inside : ∀ name, KeywordName.ofKey key = name → name ≠ .definitions → ∀ t ∈ schemasUnder name value, (object fields).Contains t :=
    fun name named other t under => ⟨name, value, other, ⟨fields, key, rfl, stated, named⟩, under⟩
  generalize named : KeywordName.ofKey key = name at here inside
  cases here with
  | reference =>
    cases List.mem_singleton.1 reached
    exact .inl ⟨fields, key, rfl, stated, named⟩
  | items read => exact .inr ⟨_, _, inside _ rfl nofun _ List.mem_cons_self, read, reached⟩
  | anyOf read =>
    obtain ⟨inner, among, found⟩ := mem_rulesReferences.1 reached
    obtain ⟨t, under, read⟩ := forall₂_left read among
    exact .inr ⟨t, inner, inside _ rfl nofun t under, read, found⟩
  | additional read =>
    rcases List.mem_append.1 reached with reached | reached
    · cases declared with
      | none => cases reached
      | some rules => exact .inr (property rules rfl reached)
    · exact .inr ⟨_, _, inside _ rfl nofun _ List.mem_cons_self, read, reached⟩
  | forbidden =>
    cases declared with
    | none => cases reached
    | some rules => exact .inr (property rules rfl reached)
  | properties apart same => exact .inr (property _ same reached)
  | _ => cases reached

end Json.Clear
end TwinShape
