import TwinShape.Proofs.Schema.Rules

namespace TwinShape

structure Evaluation.Tells (e : Evaluation α) (good sure : Prop) : Prop where
  against : e.found ≠ [] → ¬good
  favour : e.ends = true → e.found = [] → good
  ending : sure → e.ends = true

namespace Evaluation.Tells
variable {a b : Evaluation α} {good good' sure : Prop}

theorem congr (tells : a.Tells good sure) (same : good ↔ good') : a.Tells good' sure :=
  ⟨fun found => mt same.2 (tells.against found), fun ends none => same.1 (tells.favour ends none), tells.ending⟩

theorem weaken (tells : a.Tells good sure) (le : sure' → sure) : a.Tells good sure' :=
  ⟨tells.against, tells.favour, fun all => tells.ending (le all)⟩

theorem clean (holds : good) : (Evaluation.clean : Evaluation α).Tells good sure :=
  ⟨fun some => absurd rfl some, fun _ _ => holds, fun _ => rfl⟩

theorem here {c : α} (fails : ¬good) : (Evaluation.here c).Tells good sure := ⟨fun _ => fails, nofun, fun _ => rfl⟩

theorem endless (unsure : ¬sure) : (Evaluation.endless : Evaluation α).Tells good sure :=
  ⟨fun some => absurd rfl some, nofun, fun all => absurd all unsure⟩

theorem each {as : List α} (same : as = [] ↔ good) : (Evaluation.each as).Tells good sure :=
  ⟨fun some => mt same.2 some, fun _ none => same.1 none, fun _ => rfl⟩

theorem map {f : α → β} (tells : a.Tells good sure) : (a.map f).Tells good sure :=
  ⟨fun some => tells.against (mt List.map_eq_nil_iff.2 some), fun ends none => tells.favour ends (List.map_eq_nil_iff.1 none), tells.ending⟩

theorem andThen (first : a.Tells good sure) (second : b.Tells good' sure) :
    (a.andThen b).Tells (good ∧ good') sure := by
  unfold Evaluation.andThen
  cases ends : a.ends with
  | true =>
    refine ⟨?_, fun last none => ?_, second.ending⟩
    · rintro some ⟨holds, holds'⟩
      refine some (List.append_eq_nil_iff.2 ⟨?_, ?_⟩)
      · exact of_not_not fun some => first.against some holds
      · exact of_not_not fun some => second.against some holds'
    · obtain ⟨none, none'⟩ := List.append_eq_nil_iff.1 none
      exact ⟨first.favour ends none, second.favour last none'⟩
  | false =>
    refine ⟨fun some all => first.against some all.1, fun last => ?_, fun all => ?_⟩
    · cases ends.symm.trans last
    · cases ends.symm.trans (first.ending all)

theorem first (tells : a.Tells good sure) : (a.first? = some none → good) ∧ (∀ c, a.first? = some (some c) → ¬good) ∧
    (a.first? = none → ¬sure) := by
  obtain ⟨found, ends⟩ := a
  cases found with
  | nil =>
    cases ends with
    | true => exact ⟨fun _ => tells.favour rfl rfl, nofun, nofun⟩
    | false => exact ⟨nofun, nofun, fun _ all => Bool.false_ne_true (tells.ending all)⟩
  | cons c rest => exact ⟨nofun, fun _ _ => tells.against (List.cons_ne_nil _ _), nofun⟩

end Evaluation.Tells

theorem Violation.expect_tells {c : Complaint} (same : b = true ↔ good) : (Violation.expect b c).Tells good sure := by
  cases b with
  | true => exact .clean (same.1 rfl)
  | false => exact .here (mt same.2 Bool.false_ne_true)

theorem Violation.under_tells {e : Evaluation Violation} (tells : e.Tells good sure) (segment : String) :
    (Violation.under segment e).Tells good sure := tells.map

section
variable {book : RuleBook} {passed : List String} {sure : Prop}

theorem keywordsViolations_nil {j : Json} : keywordsViolations book passed [] j = .clean := keywordsViolations.eq_def ..

theorem keywordsViolations_cons {k : Keyword} {rest : List Keyword} {j : Json} :
    keywordsViolations book passed (k :: rest) j =
    (keywordViolations book passed k j).andThen (keywordsViolations book passed rest j) := keywordsViolations.eq_def ..

theorem declaredViolations_nil {fields : List (String × Json)} :
    declaredViolations book [] fields = .clean := declaredViolations.eq_def ..

theorem declaredViolations_cons {name : String} {rule : Rule} {rest : List (String × Rule)}
    {fields : List (String × Json)} :
    declaredViolations book ((name, rule) :: rest) fields =
      (match Json.member? name fields with
        | some ⟨value, _⟩ => Violation.under name (violations book [] rule value)
        | none => .clean).andThen (declaredViolations book rest fields) := declaredViolations.eq_def ..

theorem fieldsViolations_nil {declared : List (String × Rule)} {others : Option Rule} :
    fieldsViolations book declared others [] = .clean := fieldsViolations.eq_def ..

theorem fieldsViolations_cons {declared : List (String × Rule)} {others : Option Rule} {name : String} {value : Json}
    {rest : List (String × Json)} : fieldsViolations book declared others ((name, value) :: rest) =
      (match (Table.get? declared name).or others with
        | some rule => Violation.under name (violations book [] rule value)
        | none => .clean).andThen (fieldsViolations book declared others rest) := fieldsViolations.eq_def ..

theorem itemsViolations_nil {rule : Rule} {i : Nat} :
    itemsViolations book rule i [] = .clean := itemsViolations.eq_def ..

theorem itemsViolations_cons {rule : Rule} {i : Nat} {j : Json} {rest : List Json} :
    itemsViolations book rule i (j :: rest) =
    (Violation.under (toString i) (violations book [] rule j)).andThen (itemsViolations book rule (i + 1) rest) := itemsViolations.eq_def ..

theorem meetsSome?_nil {j : Json} : meetsSome? book passed [] j = some false := meetsSome?.eq_def ..

theorem meetsSome?_cons {rule : Rule} {rest : List Rule} {j : Json} : meetsSome? book passed (rule :: rest) j =
    match (violations book passed rule j).first? with
    | some none => some true
    | some (some _) => meetsSome? book passed rest j
    | none => none := meetsSome?.eq_def ..

theorem keywordsViolations_tell {list : List Keyword} {j : Json} {good : Keyword → Prop}
    (each : ∀ k ∈ list, (keywordViolations book passed k j).Tells (good k) sure) :
    (keywordsViolations book passed list j).Tells (∀ k ∈ list, good k) sure := by
  induction list with
  | nil =>
    rw [keywordsViolations_nil]
    exact .clean nofun
  | cons k rest ih =>
    rw [keywordsViolations_cons]
    refine Evaluation.Tells.congr ?_ (List.forall_mem_cons (p := good)).symm
    exact (each k List.mem_cons_self).andThen (ih fun l member => each l (List.mem_cons_of_mem _ member))

theorem keywords_tell {list : List Keyword} {j : Json} {fields : List φ} {good : φ → Prop}
    (spoken : ∀ k ∈ list, ∃ f ∈ fields, (keywordViolations book passed k j).Tells (good f) sure)
    (met : ∀ f ∈ fields, good f ∨ ∃ k ∈ list, (keywordViolations book passed k j).Tells (good f) sure) :
    (keywordsViolations book passed list j).Tells (∀ f ∈ fields, good f) sure := by
  have each : ∀ k ∈ list, (keywordViolations book passed k j).Tells
      (∀ f ∈ fields, (keywordViolations book passed k j).Tells (good f) sure → good f) sure := by
    intro k member
    obtain ⟨f, inside, tells⟩ := spoken k member
    exact ⟨fun some all => tells.against some (all f inside tells), fun ends none g _ tells => tells.favour ends none, tells.ending⟩
  refine (keywordsViolations_tell each).congr ⟨fun all f inside => ?_, fun all k _ f inside _ => all f inside⟩
  rcases met f inside with good | ⟨k, member, tells⟩
  · exact good
  · exact all k member f inside tells

theorem declaredViolations_tell {rules : List (String × Rule)} {entries own : List (String × Json)}
    {accepts : Json → Json → Prop}
    (each : List.Forall₂ (fun p e => e.1 = p.1 ∧ rule? d p.2 = some e.2) entries rules)
    (judged : ∀ p ∈ entries, ∀ rule k, rule? d p.2 = some rule → Table.get? own p.1 = some k →
      (violations book [] rule k).Tells (accepts p.2 k) sure) :
    (declaredViolations book rules own).Tells (∀ p ∈ entries, ∀ k, Table.get? own p.1 = some k → accepts p.2 k) sure := by
  induction each with
  | nil =>
    rw [declaredViolations_nil]
    exact .clean nofun
  | @cons p e entries rules here _ ih =>
    have later := ih fun q member => judged q (List.mem_cons_of_mem _ member)
    have judged := judged p List.mem_cons_self
    obtain ⟨name, rule⟩ := e
    obtain ⟨rfl, read⟩ := here
    rw [declaredViolations_cons]
    refine Evaluation.Tells.congr (.andThen ?_ later) List.forall_mem_cons.symm
    rw [← Json.member?_eq p.1 own] at judged ⊢
    generalize Json.member? p.1 own = found at judged ⊢
    rcases found with _ | ⟨value, smaller⟩
    · exact .clean nofun
    · refine (Violation.under_tells (judged rule value read rfl) p.1).congr ⟨?_, fun all => all value rfl⟩
      rintro accepted _ ⟨⟩
      exact accepted

theorem fieldsViolations_tell {declared : List (String × Rule)} {others : Option Rule} {own : List (String × Json)}
    {good : String × Json → Prop} (checked : ∀ f ∈ own, ∀ rule, (Table.get? declared f.1).or others = some rule →
      (violations book [] rule f.2).Tells (good f) sure)
    (free : ∀ f ∈ own, (Table.get? declared f.1).or others = none → good f) :
    (fieldsViolations book declared others own).Tells (∀ f ∈ own, good f) sure := by
  induction own with
  | nil =>
    rw [fieldsViolations_nil]
    exact .clean nofun
  | cons f rest ih =>
    have later := ih (fun g member => checked g (List.mem_cons_of_mem _ member)) fun g member => free g (List.mem_cons_of_mem _ member)
    have checked := checked f List.mem_cons_self
    have free := free f List.mem_cons_self
    obtain ⟨name, k⟩ := f
    rw [fieldsViolations_cons]
    refine Evaluation.Tells.congr (.andThen ?_ later) List.forall_mem_cons.symm
    cases found : (Table.get? declared name).or others with
    | none => exact .clean (free found)
    | some rule => exact Violation.under_tells (checked rule found) name

theorem itemsViolations_tell {rule : Rule} {i : Nat} {items : List Json} {good : Json → Prop}
    (each : ∀ k ∈ items, (violations book [] rule k).Tells (good k) sure) :
    (itemsViolations book rule i items).Tells (∀ k ∈ items, good k) sure := by
  induction items generalizing i with
  | nil =>
    rw [itemsViolations_nil]
    exact .clean nofun
  | cons k rest ih =>
    rw [itemsViolations_cons]
    refine Evaluation.Tells.congr ?_ List.forall_mem_cons.symm
    exact (Violation.under_tells (each k List.mem_cons_self) _).andThen (ih fun l member => each l (List.mem_cons_of_mem _ member))

theorem meetsSome?_tells {rules : List Rule} {alternatives : List Json} {j : Json} {good : Json → Prop}
    (each : List.Forall₂ (fun s rule => rule? d s = some rule) alternatives rules)
    (judged : ∀ s ∈ alternatives, ∀ rule, rule? d s = some rule → (violations book passed rule j).Tells (good s) sure) :
    (∀ met, meetsSome? book passed rules j = some met → (met = true ↔ ∃ s ∈ alternatives, good s)) ∧
      (meetsSome? book passed rules j = none → ¬sure) := by
  induction each with
  | nil =>
    rw [meetsSome?_nil]
    refine ⟨?_, nofun⟩
    rintro _ ⟨⟩
    simp
  | @cons s rule alternatives rules here _ ih =>
    have later := ih fun t member => judged t (List.mem_cons_of_mem _ member)
    obtain ⟨clean, wrong, unsure⟩ := (judged s List.mem_cons_self rule here).first
    rw [meetsSome?_cons]
    rcases found : (violations book passed rule j).first? with _ | _ | c
    · exact ⟨nofun, fun _ => unsure found⟩
    · refine ⟨?_, nofun⟩
      rintro _ ⟨⟩
      exact iff_of_true rfl ⟨s, List.mem_cons_self, clean found⟩
    · refine ⟨fun met same => (later.1 met same).trans ?_, later.2⟩
      rw [List.exists_mem_cons_iff, or_iff_right (wrong c found)]

end

theorem forall_fields_iff {declared : List (String × α)} {fields : List (String × Json)}
    (distinct : (Table.keys declared).Nodup) (settled : (Table.keys fields).Nodup) {P : α → Json → Prop} :
    (∀ f ∈ fields, ∀ a, Table.get? declared f.1 = some a → P a f.2) ↔
      ∀ e ∈ declared, ∀ value, Table.get? fields e.1 = some value → P e.2 value := by
  constructor
  · intro all e member value found
    exact all (e.1, value) (Table.mem_of_get? found) e.2 (Table.get?_of_mem distinct member)
  · intro all f member a found
    exact all (f.1, a) (Table.mem_of_get? found) f.2 (Table.get?_of_mem settled member)

structure Entries (d : Dialect) (fields : List (String × Json)) (declared : Option (List (String × Rule)))
    (entries : List (String × Json)) : Prop where
  distinct : (Table.keys entries).Nodup
  rules : List.Forall₂ (fun p e => e.1 = p.1 ∧ rule? d p.2 = some e.2) entries (declared.getD [])
  keys : (Json.object fields).declaredKeys = Table.keys entries
  stated : ∀ p ∈ entries, ("properties", .object entries) ∈ fields
  only : ∀ f ∈ fields, KeywordName.ofKey f.1 = .properties → f.2 = .object entries

theorem Json.Clear.entries {d : Dialect} {fields : List (String × Json)} (clear : Clear fields)
    {declared : Option (List (String × Rule))}
    (declares : Declares d fields declared) : ∃ entries, Entries d fields declared entries := by
  cases declares with
  | none absent =>
    refine ⟨[], List.nodup_nil, .nil, ?_, nofun, fun f member named => absurd named (absent f member)⟩
    unfold declaredKeys
    dsimp only
    split
    · rename_i found
      exact absurd rfl (absent _ (Table.mem_of_get? found))
    · rfl
  | @some entries rules stated distinct each =>
    have found := Table.get?_of_mem clear.distinct stated
    refine ⟨entries, distinct, each, ?_, fun _ _ => stated, fun f member named => ?_⟩
    · unfold declaredKeys
      dsimp only
      rw [found]
    · obtain ⟨_, _, _, here⟩ := clear.properties_of_mem member named
      exact Option.some.inj (here.symm.trans found)

theorem Entries.get? (entries : Entries d fields declared own) (key : String) :
    (Table.get? own key = none ∧ Table.get? (declared.getD []) key = none) ∨
      ∃ s rule, (key, s) ∈ own ∧ Table.get? own key = some s ∧ Table.get? (declared.getD []) key = some rule ∧ rule? d s = some rule := by
  have each := entries.rules
  generalize declared.getD [] = rules at each
  clear entries
  induction each with
  | nil => exact .inl ⟨rfl, rfl⟩
  | @cons p e own rules here _ ih =>
    obtain ⟨_, s⟩ := p
    obtain ⟨name, rule⟩ := e
    obtain ⟨rfl, read⟩ := here
    rw [Table.get?_cons, Table.get?_cons]
    by_cases same : key = name
    · subst same
      rw [if_pos rfl, if_pos rfl]
      exact .inr ⟨s, rule, List.mem_cons_self, rfl, rfl, read⟩
    · rw [if_neg same, if_neg same]
      refine ih.imp_right ?_
      rintro ⟨t, rule', member, found⟩
      exact ⟨t, rule', List.mem_cons_of_mem _ member, found⟩

theorem Json.sizeOf_field {fields : List (String × Json)} (member : f ∈ fields) :
    sizeOf f.2 < sizeOf (Json.object fields) := by
  have smaller := List.sizeOf_lt_of_mem member
  obtain ⟨key, value⟩ := f
  simp only [Prod.mk.sizeOf_spec, Json.object.sizeOf_spec] at smaller ⊢
  omega

theorem Json.sizeOf_item {items : List Json} (member : j ∈ items) : sizeOf j < sizeOf (Json.array items) := by
  have smaller := List.sizeOf_lt_of_mem member
  simp only [Json.array.sizeOf_spec]
  omega

-- How patterns are read here.
def PatternReading.builtIn : PatternReading :=
  ⟨Pattern.isSpelledForSchema, fun text => (Pattern.ofSchema? text).map Pattern.search⟩

section
variable {document : Json} {d : Dialect} {book : RuleBook} {passed : List String} {sure : Prop} {fields : List (String × Json)} {j : Json}

-- What the keyword for a field answers for: declared properties may be left to the keyword
-- that looks at the others.
def Met (document : Json) (fields : List (String × Json)) (name : KeywordName) (value j : Json) : Prop :=
  let demands := Demands .builtIn document (Accepts .builtIn document) fields
  match name with
  | .properties => leavesProperties fields = true → demands .properties value j
  | .additional => demands .additional value j ∧
      (value ≠ .bool true → ∀ f ∈ fields, KeywordName.ofKey f.1 = .properties → demands .properties f.2 j)
  | rest => demands rest value j

theorem forall_met_iff : (∀ f ∈ fields, Met document fields (.ofKey f.1) f.2 j) ↔
    ∀ f ∈ fields, Demands .builtIn document (Accepts .builtIn document) fields (.ofKey f.1) f.2 j := by
  constructor
  · intro all f member
    have met := all f member
    cases named : KeywordName.ofKey f.1 with
    | properties =>
      rw [named] at met
      cases apart : leavesProperties fields with
      | true => exact met apart
      | false =>
        obtain ⟨value, additional, form⟩ := additional_of_stays apart
        refine (all _ additional).2 ?_ f member named
        rcases form with rfl | ⟨inner, rfl⟩ <;> nofun
    | additional =>
      rw [named] at met
      exact met.1
    | _ =>
      rw [named] at met
      exact met
  · intro all f member
    have demands := all f member
    cases named : KeywordName.ofKey f.1 with
    | properties =>
      rw [named] at demands
      exact fun _ => demands
    | additional =>
      rw [named] at demands
      refine ⟨demands, fun _ g inside same => ?_⟩
      have := all g inside
      rw [same] at this
      exact this
    | _ =>
      rw [named] at demands
      exact demands

-- A field without a keyword of its own asks for nothing here.
theorem met_of_idle {name : KeywordName} (idle : Given d declared (leavesProperties fields) name value none) :
    Met document fields name value j := by
  cases idle with
  | left stays =>
    intro apart
    cases stays.symm.trans apart
  | allowed => exact ⟨fun _ _ _ _ _ => accepts_bool.2 rfl, fun other => absurd rfl other⟩
  | idle idle => cases name <;> trivial

-- Declared or not, every field of the instance is looked at.
theorem Entries.met_additional (entries : Entries d fields declared props) {own : List (String × Json)}
    (settled : (Table.keys own).Nodup) (value : Json) (checked : value ≠ .bool true) :
    (∀ f ∈ own, (∀ s, Table.get? props f.1 = some s → Accepts .builtIn document s f.2) ∧
      (f.1 ∉ Table.keys props → Accepts .builtIn document value f.2)) ↔ Met document fields .additional value (.object own) := by
  rw [forall₂_and, forall_fields_iff entries.distinct settled, and_comm]
  refine and_congr ?_ ?_
  · rw [← entries.keys]
    refine ⟨?_, fun all => all own rfl⟩
    rintro all _ ⟨⟩
    exact all
  · constructor
    · rintro all - f member named declared _ same ⟨⟩
      cases (entries.only f member named).symm.trans same
      exact all
    · intro all p member
      exact all checked _ (entries.stated p member) rfl _ own rfl rfl p member

theorem Entries.fields_tell (entries : Entries d fields declared props) {own : List (String × Json)}
    {others : Option Rule}
    {other : Json → Prop}
    (judged : ∀ p ∈ props, ∀ rule, rule? d p.2 = some rule → ∀ f ∈ own,
      (violations book [] rule f.2).Tells (Accepts .builtIn document p.2 f.2) sure)
    (rest : ∀ f ∈ own, ∀ rule, others = some rule → (violations book [] rule f.2).Tells (other f.2) sure)
    (free : others = none → ∀ k, other k) :
    (fieldsViolations book (declared.getD []) others own).Tells (∀ f ∈ own,
      (∀ s, Table.get? props f.1 = some s → Accepts .builtIn document s f.2) ∧ (f.1 ∉ Table.keys props → other f.2)) sure := by
  refine fieldsViolations_tell (fun f member rule found => ?_) fun f member found => ?_
  · rcases entries.get? f.1 with ⟨none_, none_'⟩ | ⟨s, rule', inside, some_, some_', read⟩
    · rw [none_', Option.none_or] at found
      refine (rest f member rule found).congr ?_
      rw [none_]
      refine ⟨fun holds => ⟨nofun, fun _ => holds⟩, fun all => all.2 ?_⟩
      rw [Table.mem_keys_iff, none_]
      rintro ⟨_, ⟨⟩⟩
    · rw [some_', Option.some_or] at found
      cases found
      refine (judged _ inside rule read f member).congr ?_
      rw [some_]
      refine ⟨fun holds => ⟨?_, fun absent => absurd (List.mem_map_of_mem (f := (·.1)) inside) absent⟩, fun all => all.1 s rfl⟩
      rintro _ ⟨⟩
      exact holds
  · rcases entries.get? f.1 with ⟨none_, none_'⟩ | ⟨s, rule', inside, some_, some_', read⟩
    · rw [none_', Option.none_or] at found
      rw [none_]
      exact ⟨nofun, fun _ => free found _⟩
    · rw [some_', Option.some_or] at found
      cases found

theorem get?_isNone_iff {declared : List (String × α)} :
    (Table.get? declared key).isNone = true ↔ key ∉ Table.keys declared := by
  rw [Table.mem_keys_iff, Option.isNone_iff_eq_none, Option.eq_none_iff_forall_ne_some, not_exists]

theorem Entries.keys_eq (entries : Entries d fields declared props) :
    Table.keys (declared.getD []) = Table.keys props := by
  have each := entries.rules
  generalize declared.getD [] = rules at each
  clear entries
  induction each with
  | nil => rfl
  | cons here _ ih => exact congrArg₂ List.cons here.1 ih

theorem Entries.properties_tell {rules : List (String × Rule)} (entries : Entries d fields (some rules) props)
    (apart : leavesProperties fields = true)
    {own : List (String × Json)}
    (judged : ∀ p ∈ props, ∀ rule, rule? d p.2 = some rule → ∀ f ∈ own,
      (violations book [] rule f.2).Tells (Accepts .builtIn document p.2 f.2) sure) :
    (keywordViolations book passed (.properties rules) (.object own)).Tells
      (Met document fields .properties (.object props) (.object own)) sure := by
  rw [keywordViolations]
  refine (declaredViolations_tell entries.rules fun p inside rule i read found => ?_).congr ⟨?_, fun all => all apart _ own rfl rfl⟩
  · exact judged p inside rule read (p.1, i) (Table.mem_of_get? found)
  · rintro all - _ _ ⟨⟩ ⟨⟩
    exact all

theorem Entries.closed_tells (entries : Entries d fields declared props) {own : List (String × Json)}
    (settled : (Table.keys own).Nodup)
    (judged : ∀ p ∈ props, ∀ rule, rule? d p.2 = some rule → ∀ f ∈ own,
      (violations book [] rule f.2).Tells (Accepts .builtIn document p.2 f.2) sure) :
    (keywordViolations book passed (declared.elim .noProperties .closed) (.object own)).Tells
      (Met document fields .additional (.bool false) (.object own)) sure := by
  refine Evaluation.Tells.congr ?_ (entries.met_additional settled (.bool false) nofun)
  cases declared with
  | none =>
    cases entries.rules
    rw [Option.elim, keywordViolations.eq_def]
    cases own with
    | nil => exact .clean nofun
    | cons f rest => exact .here fun all => Bool.false_ne_true (accepts_bool.1 ((all f List.mem_cons_self).2 List.not_mem_nil))
  | some rules =>
    rw [Option.elim, keywordViolations]
    -- What is declared is checked, and then whether there is anything else.
    have known : (fieldsViolations book rules none own).Tells (∀ f ∈ own,
        (∀ s, Table.get? props f.1 = some s → Accepts .builtIn document s f.2) ∧ (f.1 ∉ Table.keys props → True)) sure :=
      entries.fields_tell judged (by rintro _ _ _ ⟨⟩) fun _ _ => trivial
    have alone : ((own.map (·.1)).filter fun key => (Table.get? rules key).isNone).isEmpty = true ↔ ∀ f ∈ own, f.1 ∈ Table.keys props := by
      rw [List.isEmpty_iff, List.filter_eq_nil_iff, List.forall_mem_map]
      refine forall₂_congr fun f _ => ?_
      rw [get?_isNone_iff, not_not, ← entries.keys_eq, Option.getD]
    refine (known.andThen (Violation.expect_tells alone)).congr ?_
    rw [← forall₂_and]
    refine forall₂_congr fun f _ => ?_
    rw [accepts_bool]
    simp

theorem Entries.additional_tells (entries : Entries d fields declared props) {own inner : List (String × Json)}
    (settled : (Table.keys own).Nodup)
    (judged : ∀ p ∈ props, ∀ rule, rule? d p.2 = some rule → ∀ f ∈ own,
      (violations book [] rule f.2).Tells (Accepts .builtIn document p.2 f.2) sure)
    (rest : ∀ f ∈ own, (violations book [] rule f.2).Tells (Accepts .builtIn document (.object inner) f.2) sure) :
    (keywordViolations book passed (.additional (declared.getD []) rule) (.object own)).Tells
      (Met document fields .additional (.object inner) (.object own)) sure := by
  rw [keywordViolations]
  refine (entries.fields_tell judged (fun f member other same => ?_) (by rintro ⟨⟩)).congr (entries.met_additional settled _ (by rintro ⟨⟩))
  cases same
  exact rest f member

theorem required_tells {names : List String} (distinct : names.Nodup) :
    (keywordViolations book passed (.required names) (.object own)).Tells
      (Met document fields .required (Json.strings names) (.object own)) sure := by
  rw [keywordViolations]
  refine .each ((?_ : _ ↔ ∀ name ∈ names, ∃ k, Table.get? own name = some k).trans ⟨?_, fun all => ?_⟩)
  · rw [List.map_eq_nil_iff, List.filter_eq_nil_iff]
    refine forall₂_congr fun name _ => ?_
    unfold Table.has
    cases Table.get? own name <;> simp
  · rintro all names' _ found ⟨⟩
    cases (requiredNames?_strings distinct).symm.trans found
    exact all
  · exact all names own (requiredNames?_strings distinct) rfl

theorem items_tells {items : List Json} {value : Json}
    (each : ∀ i ∈ items, (violations book [] rule i).Tells (Accepts .builtIn document value i) sure) :
    (keywordViolations book passed (.items rule) (.array items)).Tells (Met document fields .items value (.array items)) sure := by
  rw [keywordViolations]
  refine (itemsViolations_tell each).congr ⟨?_, fun all => all items rfl⟩
  rintro all _ ⟨⟩
  exact all

theorem pattern_tells {text : String} (read : Pattern.ofSchema? text = some expression) :
    (keywordViolations book passed (.pattern text expression) (.string s)).Tells
      (Met document fields .pattern (.string text) (.string s)) sure := by
  have reads : PatternReading.builtIn.search? text = some expression.search := congrArg (Option.map Pattern.search) read
  rw [keywordViolations]
  refine Violation.expect_tells ⟨?_, fun all => ?_⟩
  · rintro found _ _ ⟨⟩ ⟨⟩
    exact ⟨_, reads, found⟩
  · obtain ⟨search, reads', found⟩ := all text s rfl rfl
    cases reads.symm.trans reads'
    exact found

theorem type_tells {t : TypeName} :
    (keywordViolations book passed (.type [t]) j).Tells (Met document fields .type (.string t.name) j) sure := by
  rw [keywordViolations]
  refine Violation.expect_tells ⟨fun admitted => ⟨[t], typeNames?_name t, admitted⟩, ?_⟩
  rintro ⟨names, found, admitted⟩
  cases (typeNames?_name t).symm.trans found
  exact admitted

theorem anyOf_tells {schemas : List Json} {rules : List Rule}
    (read : List.Forall₂ (fun s rule => rule? d s = some rule) schemas rules)
    (judged : ∀ s ∈ schemas, ∀ rule, rule? d s = some rule → (violations book passed rule j).Tells (Accepts .builtIn document s j) sure) :
    (keywordViolations book passed (.anyOf rules) j).Tells (Met document fields .anyOf (.array schemas) j) sure := by
  obtain ⟨known, unknown⟩ := meetsSome?_tells read judged
  rw [keywordViolations]
  cases met : meetsSome? book passed rules j with
  | none => exact .endless (unknown met)
  | some b =>
    refine Violation.expect_tells ((known b met).trans ⟨fun some => ⟨_, rfl, some⟩, ?_⟩)
    rintro ⟨_, ⟨⟩, some⟩
    exact some

theorem enumeration_tells {values : List Json} :
    (keywordViolations book passed (.enumeration values) j).Tells (Met document fields .enumeration (.array values) j) sure := by
  rw [keywordViolations]
  refine Violation.expect_tells ⟨fun listed => ⟨_, rfl, listed⟩, ?_⟩
  rintro ⟨_, ⟨⟩, listed⟩
  exact listed

theorem constant_tells {value : Json} :
    (keywordViolations book passed (.constant value) j).Tells (Met document fields .constant value j) sure := by
  rw [keywordViolations]
  exact Violation.expect_tells Iff.rfl

-- The values that a keyword can find fault with.
def Keyword.Concerns : Keyword → Json → Prop
  | .properties _, j | .additional _ _, j | .closed _, j | .noProperties, j | .required _, j => ∃ own, j = .object own
  | .items _, j => ∃ items, j = .array items
  | .pattern _ _, j => ∃ s, j = .string s
  | .reference _, _ | .type _, _ | .anyOf _, _ | .enumeration _, _ | .constant _, _ => True

theorem keywordViolations_unconcerned (apart : ¬k.Concerns j) : keywordViolations book passed k j = .clean := by
  rw [keywordViolations.eq_def]
  cases k with
  | reference | type | anyOf | enumeration | constant => exact absurd trivial apart
  | properties | additional | closed | noProperties | required =>
    cases j with
    | object own => exact absurd ⟨own, rfl⟩ apart
    | _ => rfl
  | items =>
    cases j with
    | array items => exact absurd ⟨items, rfl⟩ apart
    | _ => rfl
  | pattern =>
    cases j with
    | string s => exact absurd ⟨s, rfl⟩ apart
    | _ => rfl

-- A keyword speaks for its field, if the rules inside speak for their schemas.
theorem Json.Clear.keyword_tells (clear : Clear fields) (settled : j.Settled) (declares : Declares d fields declared)
    (member : f ∈ fields)
    (given : Given d declared (leavesProperties fields) (.ofKey f.1) f.2 (some k))
    (deeper : ∀ t rule i, (object fields).Contains t → rule? d t = some rule → i.Settled → sizeOf i < sizeOf j →
      (violations book [] rule i).Tells (Accepts .builtIn document t i) sure)
    (beside : ∀ members t rule, (object fields).States .anyOf (.array members) → t ∈ members → rule? d t = some rule →
      (violations book passed rule j).Tells (Accepts .builtIn document t j) sure)
    (led : ∀ text, (object fields).States .reference (.string text) → (keywordViolations book passed (.reference text) j).Tells
      (∃ target, Pointer.resolve? document text = some target ∧ Accepts .builtIn document target j) sure) :
    (keywordViolations book passed k j).Tells (Met document fields (.ofKey f.1) f.2 j) sure := by
  obtain ⟨props, entries⟩ := clear.entries declares
  have property : ∀ p ∈ props, (object fields).Contains p.2 := fun p inside =>
    ⟨.properties, _, nofun, ⟨fields, _, rfl, entries.stated p inside, rfl⟩, List.mem_map_of_mem inside⟩
  have judged : ∀ own, j = .object own → (∀ f ∈ own, f.2.Settled) → ∀ p ∈ props, ∀ rule, rule? d p.2 = some rule → ∀ f ∈ own,
      (violations book [] rule f.2).Tells (Accepts .builtIn document p.2 f.2) sure := by
    rintro own rfl each p inside rule read f member
    exact deeper p.2 rule f.2 (property p inside) read (each f member) (sizeOf_field member)
  obtain ⟨key, value⟩ := f
  have contains : ∀ name, KeywordName.ofKey key = name → name ≠ .definitions → ∀ t ∈ schemasUnder name value, (object fields).Contains t :=
    fun name named other t under => ⟨name, value, other, ⟨fields, key, rfl, member, named⟩, under⟩
  have only := entries.only _ member
  have stated : ∀ name, KeywordName.ofKey key = name → (object fields).States name value := fun name named => ⟨fields, key, rfl, member, named⟩
  dsimp only at given only ⊢
  generalize KeywordName.ofKey key = name at given contains stated only ⊢
  cases given with
  | reference =>
    refine (led _ (stated _ rfl)).congr ⟨fun ⟨target, found, accepted⟩ => ⟨_, target, rfl, found, accepted⟩, ?_⟩
    rintro ⟨_, target, ⟨⟩, found, accepted⟩
    exact ⟨target, found, accepted⟩
  | type t => exact type_tells
  | properties apart same =>
    subst same
    cases only rfl
    cases settled with
    | object distinct each => exact entries.properties_tell apart (judged _ rfl each)
    | _ =>
      rw [keywordViolations_unconcerned (by rintro ⟨_, ⟨⟩⟩)]
      exact .clean fun _ _ _ _ => nofun
  | forbidden =>
    cases settled with
    | object distinct each => exact entries.closed_tells distinct (judged _ rfl each)
    | _ =>
      cases declared <;> rw [Option.elim, keywordViolations_unconcerned (by rintro ⟨_, ⟨⟩⟩)] <;> exact .clean ⟨fun _ => nofun, fun _ _ _ _ _ _ _ => nofun⟩
  | additional read =>
    cases settled with
    | object distinct each =>
      refine entries.additional_tells distinct (judged _ rfl each) fun f member => ?_
      exact deeper _ _ f.2 (contains _ rfl nofun _ List.mem_cons_self) read (each f member) (sizeOf_field member)
    | _ =>
      rw [keywordViolations_unconcerned (by rintro ⟨_, ⟨⟩⟩)]
      exact .clean ⟨fun _ => nofun, fun _ _ _ _ _ _ _ => nofun⟩
  | required distinct =>
    cases settled with
    | object => exact required_tells distinct
    | _ =>
      rw [keywordViolations_unconcerned (by rintro ⟨_, ⟨⟩⟩)]
      exact .clean fun _ _ _ => nofun
  | items read =>
    cases settled with
    | array each =>
      refine items_tells fun i member => ?_
      exact deeper _ _ i (contains _ rfl nofun _ List.mem_cons_self) read (each i member) (sizeOf_item member)
    | _ =>
      rw [keywordViolations_unconcerned (by rintro ⟨_, ⟨⟩⟩)]
      exact .clean fun _ => nofun
  | anyOf read => exact anyOf_tells read fun t member rule read => beside _ t rule (stated _ rfl) member read
  | enumeration => exact enumeration_tells
  | constant => exact constant_tells
  | pattern read =>
    cases settled with
    | string s => exact pattern_tells read
    | _ =>
      rw [keywordViolations_unconcerned (by rintro ⟨_, ⟨⟩⟩)]
      exact .clean fun _ _ _ => nofun

theorem Json.Holds.sizeOf_lt {s t : Json} (holds : s.Holds t) : sizeOf t < sizeOf s := by
  obtain ⟨name, value, ⟨fields, key, rfl, member, -⟩, under⟩ := holds
  refine lt_of_le_of_lt ?_ (sizeOf_field member)
  unfold schemasUnder at under
  split at under
  · exact (congrArg sizeOf (List.mem_singleton.1 under)).le
  · exact (congrArg sizeOf (List.mem_singleton.1 under)).le
  · exact (sizeOf_item under).le
  · obtain ⟨f, inside, rfl⟩ := List.mem_map.1 under
    exact (sizeOf_field inside).le
  · obtain ⟨f, inside, rfl⟩ := List.mem_map.1 under
    exact (sizeOf_field inside).le
  · cases under

def RuleBook.Covers (book : RuleBook) (s : Json) : Prop :=
  ∀ t text, Relation.ReflTransGen Json.Contains s t → t.States .reference (.string text) → text ∈ book.targets.map (·.1)

theorem RuleBook.Covers.inner (covered : book.Covers s) (contains : s.Contains t) : book.Covers t :=
  fun u text below stated => covered u text (.head contains below) stated

structure RuleBook.Reads (book : RuleBook) (d : Dialect) (document : Json) : Prop where
  root : rule? d document = some book.root
  covered : book.Covers document
  target : ∀ e ∈ book.targets, ∃ t, Pointer.resolve? document e.1 = some t ∧ document.Within t ∧ rule? d t = some e.2 ∧ book.Covers t

-- The references that have been followed on an instance have led to the schema.
def Json.Led (document : Json) (passed : List String) (s : Json) : Prop :=
  ∀ text ∈ passed, ∃ t, Pointer.resolve? document text = some t ∧ Relation.ReflTransGen (fun before after => before.Becomes document after) t s

theorem Json.Led.becomes (led : document.Led passed s) (becomes : s.Becomes document t) : document.Led passed t := by
  intro text member
  obtain ⟨u, found, comes⟩ := led text member
  exact ⟨u, found, comes.tail becomes⟩

theorem Json.Led.follow (led : document.Led passed s) (stated : s.States .reference (.string text))
    (resolved : Pointer.resolve? document text = some t) : document.Led (text :: passed) t := by
  intro other member
  rcases List.mem_cons.1 member with rfl | member
  · exact ⟨t, resolved, .refl⟩
  · exact led.becomes (.inr ⟨text, stated, resolved⟩) other member

theorem not_transGen_of_acc {α : Type} {a : α} {r : α → α → Prop} (acc : Acc (fun after before => r before after) a) :
    ¬Relation.TransGen r a a := by
  have far := acc.transGen
  clear acc
  induction far with
  | intro b _ ih =>
    intro cycle
    have back : Relation.TransGen (fun after before => r before after) b b := Relation.transGen_swap.2 cycle
    exact ih b back cycle

-- A reference is followed to the schema that it leads to. Where it has been followed before, on
-- the same instance, it has come round to the schema that it stands in.
theorem RuleBook.Reads.reference_tells (reads : book.Reads d document) (plain : document.Plain) {s : Json}
    (inside : document.Within s)
    (covered : book.Covers s) (stated : s.States .reference (.string text))
    (followed : text ∉ passed → text ∈ book.targets.map (·.1) → ∀ t rule, document.Within t → rule? d t = some rule → book.Covers t →
      (violations book (text :: passed) rule j).Tells (Accepts .builtIn document t j) (document.Guarded ∧ document.Led (text :: passed) t)) :
    (keywordViolations book passed (.reference text) j).Tells
      (∃ target, Pointer.resolve? document text = some target ∧ Accepts .builtIn document target j)
      (document.Guarded ∧ document.Led passed s) := by
  rw [keywordViolations]
  split
  · rename_i met
    refine .endless ?_
    rintro ⟨guarded, led⟩
    obtain ⟨t, found, comes⟩ := led text met
    obtain ⟨t', found', within⟩ := plain.led s text inside stated
    cases found.symm.trans found'
    exact not_transGen_of_acc (guarded t within) (.tail' comes (.inr ⟨text, stated, found⟩))
  · rename_i fresh
    have known := covered s text .refl stated
    split
    · rename_i name rule found
      have same : name = text := by simpa using List.find?_some found
      subst same
      obtain ⟨t, resolved, within, read, covered'⟩ := reads.target _ (List.mem_of_find?_eq_some found)
      refine ((followed fresh known t rule within read covered').weaken ?_).congr ⟨fun accepted => ⟨t, resolved, accepted⟩, ?_⟩
      · exact fun sure => ⟨sure.1, sure.2.follow stated resolved⟩
      · rintro ⟨t', resolved', accepted⟩
        cases resolved.symm.trans resolved'
        exact accepted
    · rename_i missing
      obtain ⟨e, member, rfl⟩ := List.mem_map.1 known
      exact absurd (List.find?_eq_none.1 missing e member) (by simp)

-- The rules judge instances as the schemas that they are read off.
theorem RuleBook.Reads.violations_tells (reads : book.Reads d document) (plain : document.Plain)
    {passed : List String} {s j : Json}
    {rule : Rule} (inside : document.Within s) (read : rule? d s = some rule) (covered : book.Covers s) (settled : j.Settled) :
    (violations book passed rule j).Tells (Accepts .builtIn document s j) (document.Guarded ∧ document.Led passed s) := by
  have led : ∀ text, s.States .reference (.string text) → (keywordViolations book passed (.reference text) j).Tells
      (∃ target, Pointer.resolve? document text = some target ∧ Accepts .builtIn document target j)
      (document.Guarded ∧ document.Led passed s) := by
    intro text stated
    refine reads.reference_tells plain inside covered stated fun fresh known t rule' within read' covered' => ?_
    have fewer := Registry.unvisitedIn_cons_lt known fresh
    exact violations_tells reads plain within read' covered' settled
  have beside : ∀ members t rule, s.States .anyOf (.array members) → t ∈ members → rule? d t = some rule →
      (violations book passed rule j).Tells (Accepts .builtIn document t j) (document.Guarded ∧ document.Led passed s) := by
    intro members t rule stated member read
    have contains : s.Contains t := ⟨.anyOf, _, nofun, stated, member⟩
    have smaller := contains.holds.sizeOf_lt
    refine (violations_tells reads plain (inside.tail contains.holds) read (covered.inner contains) settled).weaken ?_
    exact fun sure => ⟨sure.1, sure.2.becomes (.inl ⟨members, stated, member⟩)⟩
  have deeper : ∀ t rule i, s.Contains t → rule? d t = some rule → i.Settled → sizeOf i < sizeOf j →
      (violations book [] rule i).Tells (Accepts .builtIn document t i) (document.Guarded ∧ document.Led passed s) := by
    intro t rule i contains read settled' smaller
    refine (violations_tells reads plain (inside.tail contains.holds) read (covered.inner contains) settled').weaken ?_
    exact fun sure => ⟨sure.1, nofun⟩
  rcases plain.form s inside with ⟨b, rfl⟩ | ⟨fields, rfl, -⟩
  · cases b <;> rw [rule?] at read <;> cases read <;> rw [violations]
    · exact .here fun accepted => Bool.false_ne_true (accepts_bool.1 accepted)
    · exact .clean (accepts_bool.2 rfl)
  · have clear := plain.clear inside
    obtain ⟨declared, list, rfl, declares, given, given'⟩ := clear.rule_given read
    have tells : ∀ f ∈ fields, ∀ k, Given d declared (leavesProperties fields) (.ofKey f.1) f.2 (some k) →
        (keywordViolations book passed k j).Tells (Met document fields (.ofKey f.1) f.2 j) (document.Guarded ∧ document.Led passed (.object fields)) :=
      fun f member k given => clear.keyword_tells settled declares member given deeper beside led
    rw [violations]
    refine (keywords_tell (fun k listed => ?_) fun f member => ?_).congr (forall_met_iff.trans accepts_object.symm)
    · obtain ⟨f, member, here⟩ := given' k listed
      exact ⟨f, member, tells f member k here⟩
    · obtain ⟨part, here, listed⟩ := given f member
      cases part with
      | some k => exact .inr ⟨k, listed k rfl, tells f member k here⟩
      | none => exact .inl (met_of_idle here)
termination_by (sizeOf j, Registry.unvisitedIn (book.targets.map (·.1)) passed, sizeOf s)
decreasing_by
  · exact .right _ (.left _ _ fewer)
  · exact .right _ (.right _ smaller)
  · exact .left _ _ smaller

end
end TwinShape
