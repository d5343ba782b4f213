import TwinShape.Lint.Definition

namespace TwinShape

namespace Concern

-- What lint has to say about examples and defaults, and whether it can say anything.
def isJudgement : Concern → Bool
  | .badExample .. | .badDefault .. | .unusableSchema _ => true
  | _ => false

def isUnusable : Concern → Bool
  | .unusableSchema _ => true
  | _ => false

theorem judgement_of_code {c : Concern} (error : c.code = "E002" ∨ c.code = "E003") : c.isJudgement := by
  cases c <;> first | rfl | simp [code] at error

theorem judgement_of_unusable {c : Concern} (unusable : c.isUnusable) : c.isJudgement := by
  cases c <;> first | rfl | cases unusable

end Concern

def judgements (found : List Diagnostic) : List Diagnostic := found.filter (·.concern.isJudgement)

def placesOf (kind : Concern → Bool) (found : List Diagnostic) : List Place :=
  (found.filter (kind ·.concern)).map (·.place)

def reported (code : String) (found : List Diagnostic) : List Place := placesOf (·.code == code) found

section
variable {kind : Concern → Bool}

theorem placesOf_append (found others : List Diagnostic) :
    placesOf kind (found ++ others) = placesOf kind found ++ placesOf kind others := by
  unfold placesOf
  rw [List.filter_append, List.map_append]

theorem placesOf_none {found : List Diagnostic} (other : ∀ d ∈ found, kind d.concern = false) :
    placesOf kind found = [] := by
  unfold placesOf
  rw [List.map_eq_nil_iff, List.filter_eq_nil_iff]
  exact fun d member => Bool.eq_false_iff.1 (other d member)

theorem placesOf_judgements (judges : ∀ c, kind c = true → c.isJudgement = true) (found : List Diagnostic) :
    placesOf kind (judgements found) = placesOf kind found := by
  unfold placesOf judgements
  rw [List.filter_filter]
  refine congrArg _ (List.filter_congr fun d _ => ?_)
  cases chosen : kind d.concern with
  | true => rw [judges _ chosen, Bool.and_self]
  | false => rfl

end

theorem judgements_append (found others : List Diagnostic) :
    judgements (found ++ others) = judgements found ++ judgements others := List.filter_append ..

theorem judgements_none {found : List Diagnostic} (other : ∀ d ∈ found, d.concern.isJudgement = false) :
    judgements found = [] :=
  List.filter_eq_nil_iff.2 fun d member => Bool.eq_false_iff.1 (other d member)

theorem judgements_duplicateLiterals (n : Node) : judgements (duplicateLiterals n) = [] := by
  refine judgements_none fun d member => ?_
  obtain ⟨⟨place, x⟩, -, inside⟩ := List.mem_flatMap.1 member
  dsimp only at inside
  split at inside
  · obtain ⟨l, -, rfl⟩ := List.mem_map.1 inside
    rfl
  · cases inside

-- Warnings about unions come after what has been found, and change none of it.
theorem judgements_singleUnions (v : Variant) (found : List Diagnostic) (places : List Place) :
    judgements (addSingleUnions v found places) = judgements found := by
  unfold addSingleUnions
  induction places generalizing found with
  | nil => rfl
  | cons place rest ih =>
    rw [List.foldl_cons, ih]
    cases found.any fun d => d.concern.code == "W002" && d.place.text == place.text with
    | true => rfl
    | false => exact (judgements_append found _).trans (List.append_nil _)

def Node.rejectedExamples (place : Place) (n : Node) (accepts : Json → Bool) : List Place :=
  (n.annotations.examples.zipIdx.filter fun e => !accepts e.1).map fun e => place.item "examples" e.2

def Node.rejectedDefault (place : Place) (n : Node) (accepts : Json → Bool) : List Place :=
  (n.default?.toList.filter (!accepts ·)).map fun _ => place.child "default"

def Node.hasValues (n : Node) : Bool := !(n.annotations.examples.isEmpty && n.default?.isNone)

structure Settles (check : Json → Evaluation SchemaError) (accepts : Json → Bool) (j : Json) : Prop where
  ends : (check j).ends = true
  clean : (check j).found = [] ↔ accepts j = true

section
variable {check : Json → Evaluation SchemaError} {place : Place} {accepts : Json → Bool} {j : Json}

theorem Settles.first (settles : Settles check accepts j) :
    ∃ e?, (check j).first? = some e? ∧ accepts j = e?.isNone := by
  have clean := settles.clean
  unfold Evaluation.first?
  rw [settles.ends]
  cases found : (check j).found with
  | nil =>
    rw [found] at clean
    exact ⟨none, rfl, clean.1 rfl⟩
  | cons e rest =>
    rw [found] at clean
    exact ⟨some e, rfl, Bool.eq_false_iff.2 (mt clean.2 (List.cons_ne_nil _ _))⟩

theorem reported_examples (i : Nat) {values : List Json} (each : ∀ j ∈ values, Settles check accepts j) :
    ∃ found, badExamples check place i values = some found ∧ (∀ d ∈ found, ∃ j c, d.concern = .badExample j c) ∧
      reported "E002" found = ((values.zipIdx i).filter fun e => !accepts e.1).map fun e => place.item "examples" e.2 := by
  induction values generalizing i with
  | nil => exact ⟨[], rfl, List.forall_mem_nil _, rfl⟩
  | cons value rest ih =>
    obtain ⟨e?, first, accepted⟩ := (each value List.mem_cons_self).first
    obtain ⟨others, later, kinds, places⟩ := ih (i + 1) fun j member => each j (List.mem_cons_of_mem _ member)
    rw [badExamples, first, later, List.zipIdx_cons, List.filter_cons, accepted]
    refine ⟨_, rfl, ?_, ?_⟩
    · refine List.forall_mem_append.2 ⟨fun d member => ?_, kinds⟩
      obtain ⟨e, -, rfl⟩ := List.mem_map.1 member
      exact ⟨_, _, rfl⟩
    · rw [reported, placesOf_append]
      change _ ++ reported "E002" others = _
      rw [places]
      cases e? <;> rfl

theorem reported_default {value? : Option Json} (each : ∀ j, value? = some j → Settles check accepts j) :
    ∃ found, badDefault check place value? = some found ∧ (∀ d ∈ found, ∃ j c, d.concern = .badDefault j c) ∧
      reported "E003" found = (value?.toList.filter (!accepts ·)).map fun _ => place.child "default" := by
  cases value? with
  | none => exact ⟨[], rfl, List.forall_mem_nil _, rfl⟩
  | some value =>
    obtain ⟨e?, first, accepted⟩ := (each value rfl).first
    rw [badDefault, first, Option.toList_some, List.filter_cons, accepted]
    refine ⟨_, rfl, fun d member => ?_, ?_⟩
    · obtain ⟨e, -, rfl⟩ := List.mem_map.1 member
      exact ⟨_, _, rfl⟩
    · cases e? <;> rfl

theorem reported_values {n : Node} (examples : ∀ j ∈ n.annotations.examples, Settles check accepts j)
    (default : ∀ j, n.default? = some j → Settles check accepts j) : ∃ found, badValues check place n = some found ∧
      reported "E002" found = n.rejectedExamples place accepts ∧ reported "E003" found = n.rejectedDefault place accepts ∧
      placesOf Concern.isUnusable found = [] := by
  obtain ⟨first, shown, kinds, places⟩ := reported_examples 0 examples
  obtain ⟨second, shown', kinds', places'⟩ := reported_default default
  have before : ∀ kind : Concern → Bool, (∀ j c, kind (.badExample j c) = false) → placesOf kind first = [] :=
    fun kind other => placesOf_none fun d member => by
      obtain ⟨j, c, same⟩ := kinds d member
      rw [same, other]
  have after : ∀ kind : Concern → Bool, (∀ j c, kind (.badDefault j c) = false) → placesOf kind second = [] :=
    fun kind other => placesOf_none fun d member => by
      obtain ⟨j, c, same⟩ := kinds' d member
      rw [same, other]
  unfold badValues
  rw [shown, shown']
  refine ⟨_, rfl, ?_, ?_, ?_⟩
  · rw [reported, placesOf_append, after _ fun _ _ => rfl, List.append_nil]
    exact places
  · rw [reported, placesOf_append, before _ fun _ _ => rfl, List.nil_append]
    exact places'
  · rw [placesOf_append, before _ fun _ _ => rfl, after _ fun _ _ => rfl, List.nil_append]

end
end TwinShape
