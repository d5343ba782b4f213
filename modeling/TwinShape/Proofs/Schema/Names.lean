import TwinShape.Schema.Emission
import TwinShape.Schema.Pointer

namespace TwinShape

def isPlainChar (c : Char) : Bool := c.isAlphanum || c == '_' || c == '-'

def isPlainName (name : String) : Bool := name.toList.all isPlainChar

namespace Pointer

theorem plain_ne {c : Char} (plain : isPlainChar c) : c ≠ '%' ∧ c ≠ '~' ∧ c ≠ '/' := by
  refine ⟨?_, ?_, ?_⟩ <;> rintro rfl <;> exact absurd plain (by decide)

theorem escapes_other {c : Char} (other : c ≠ '%') (rest : List Char) : escapes (c :: rest) = ([], c :: rest) := by
  unfold escapes
  split
  · rename_i same
    exact absurd (List.cons.inj same).1 other
  · rfl

theorem decode_plain {cs : List Char} (plain : ∀ c ∈ cs, c ≠ '%') : decode cs = some cs := by
  induction cs with
  | nil => rw [decode]
  | cons c rest ih =>
    rw [decode]
    split
    · rw [ih fun d member => plain d (List.mem_cons_of_mem _ member)]
      rfl
    · rename_i found
      rw [escapes_other (plain c List.mem_cons_self)] at found
      cases found

theorem splitAtSlashes_slash {cs : List Char} (plain : ∀ c ∈ cs, c ≠ '/') (rest : List Char) :
    splitAtSlashes (cs ++ '/' :: rest) = cs :: splitAtSlashes rest := by
  induction cs with
  | nil => rfl
  | cons c more ih =>
    have inner := ih fun d member => plain d (List.mem_cons_of_mem _ member)
    rw [List.cons_append, splitAtSlashes, inner]
    exact plain c List.mem_cons_self

theorem splitAtSlashes_plain {cs : List Char} (plain : ∀ c ∈ cs, c ≠ '/') : splitAtSlashes cs = [cs] := by
  induction cs with
  | nil => rfl
  | cons c more ih =>
    have inner := ih fun d member => plain d (List.mem_cons_of_mem _ member)
    rw [splitAtSlashes, inner]
    exact plain c List.mem_cons_self

theorem unescape_plain {cs : List Char} (plain : ∀ c ∈ cs, c ≠ '~') : unescape cs = cs := by
  induction cs with
  | nil => rfl
  | cons c rest ih =>
    rw [unescape, ih fun d member => plain d (List.mem_cons_of_mem _ member)]
    all_goals
      intros
      exact plain c List.mem_cons_self ‹_›

theorem isFragment_of_all {cs : List Char} (each : ∀ c ∈ cs, (c.isAlphanum || fragmentMarks.contains c) = true) :
    isFragment cs := by
  induction cs with
  | nil => rfl
  | cons c rest ih =>
    have here := each c List.mem_cons_self
    have other : c ≠ '%' := by
      rintro rfl
      exact absurd here (by decide)
    rw [isFragment, here, ih fun d member => each d (List.mem_cons_of_mem _ member)]
    · rfl
    · intros
      exact other ‹_›

theorem mark_of_plain {c : Char} (plain : isPlainChar c) : (c.isAlphanum || fragmentMarks.contains c) = true := by
  unfold isPlainChar at plain
  rw [Bool.or_eq_true, Bool.or_eq_true] at plain
  rcases plain with (letter | mark) | mark
  · rw [letter, Bool.true_or]
  · rw [beq_iff_eq.1 mark]
    decide
  · rw [beq_iff_eq.1 mark]
    decide

end Pointer

section
variable {name : String}

theorem pointer_toList (name : String) :
    (Container.definitions.pointer name).toList = '#' :: '/' :: ("definitions".toList ++ '/' :: name.toList) := by
  unfold Container.pointer Container.key
  simp

theorem isPlainName_definitions : isPlainName "definitions" := by decide

theorem isFragment_pointer (plain : isPlainName name) :
    Pointer.isFragment ('/' :: ("definitions".toList ++ '/' :: name.toList)) := by
  refine Pointer.isFragment_of_all fun c member => ?_
  have slash : ('/'.isAlphanum || Pointer.fragmentMarks.contains '/') = true := by decide
  rcases List.mem_cons.1 member with rfl | member
  · exact slash
  · rcases List.mem_append.1 member with front | member
    · exact Pointer.mark_of_plain (List.all_eq_true.1 isPlainName_definitions c front)
    · rcases List.mem_cons.1 member with rfl | inside
      · exact slash
      · exact Pointer.mark_of_plain (List.all_eq_true.1 plain c inside)

theorem resolve?_pointer (plain : isPlainName name) (fields container : List (String × Json))
    (found : Table.get? fields "definitions" = some (.object container)) :
    Pointer.resolve? (.object fields) (Container.definitions.pointer name) = Table.get? container name := by
  have each : ∀ c ∈ name.toList, c ≠ '%' ∧ c ≠ '~' ∧ c ≠ '/' := fun c member =>
    Pointer.plain_ne (List.all_eq_true.1 plain c member)
  have fixed : ∀ c ∈ "definitions".toList, c ≠ '%' ∧ c ≠ '~' ∧ c ≠ '/' := fun c member =>
    Pointer.plain_ne (List.all_eq_true.1 isPlainName_definitions c member)
  have fragment : Pointer.isFragment ("definitions".toList ++ '/' :: name.toList) := by
    have whole := isFragment_pointer plain
    rw [Pointer.isFragment] at whole
    · exact (Bool.and_eq_true_iff.1 whole).2
    · intros
      simp at *
  have decoded : Pointer.decode ("definitions".toList ++ '/' :: name.toList) =
      some ("definitions".toList ++ '/' :: name.toList) := by
    refine Pointer.decode_plain fun c member => ?_
    rcases List.mem_append.1 member with front | inside
    · exact (fixed c front).1
    · rcases List.mem_cons.1 inside with rfl | inside
      · decide
      · exact (each c inside).1
  have split : Pointer.splitAtSlashes ("definitions".toList ++ '/' :: name.toList) =
      ["definitions".toList, name.toList] := by
    rw [Pointer.splitAtSlashes_slash fun c member => (fixed c member).2.2,
      Pointer.splitAtSlashes_plain fun c member => (each c member).2.2]
  have key : Pointer.unescape "definitions".toList = "definitions".toList :=
    Pointer.unescape_plain fun c member => (fixed c member).2.1
  unfold Pointer.resolve?
  rw [pointer_toList]
  change (if Pointer.isFragment _ then Pointer.decode _ >>= fun cs => _ else none) = _
  rw [if_pos fragment, decoded]
  change Pointer.follow _ (List.map String.ofList (Pointer.splitAtSlashes _)) = _
  rw [split]
  simp only [List.map_cons, List.map_nil, Pointer.follow, key, String.ofList_toList, found,
    Pointer.unescape_plain fun c member => (each c member).2.1, Option.bind_eq_bind, Option.bind_some]
  exact Option.bind_fun_some _

end
end TwinShape
