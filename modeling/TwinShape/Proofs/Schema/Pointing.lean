import TwinShape.Proofs.Schema.Container
import TwinShape.Proofs.Schema.Names
import TwinShape.Schema.Evaluator

namespace TwinShape
namespace Pointer

def substitute (code by_ : Char) : List Char → List Char
  | '~' :: c :: rest => if c = code then by_ :: substitute code by_ rest else '~' :: substitute code by_ (c :: rest)
  | c :: rest => c :: substitute code by_ rest
  | [] => []

-- A slash is put back before a tilde is, so that neither begins another escape.
def segment (cs : List Char) : List Char := substitute '0' '~' (substitute '1' '/' cs)

-- The way that a reference describes: a fragment, decoded, and split before anything is put back.
def way? (reference : String) : Option (List String) :=
  match reference.toList with
  | '#' :: fragment => do
    match splitAtSlashes (← decode fragment) with
    | [] :: segments => some (segments.map fun cs => String.ofList (segment cs))
    | _ => none
  | _ => none

def along? : Json → List String → Option Json
  | j, [] => some j
  | .object fields, key :: rest => do along? (← Table.get? fields key) rest
  | .array items, digits :: rest => do
    let i ← digits.toNat?
    if toString i = digits then along? (← items[i]?) rest else none
  | _, _ => none

def target? (document : Json) (reference : String) : Option Json := (way? reference).bind (along? document)

-- A text in which nothing has a meaning of its own in a pointer.
structure Literal (cs : List Char) : Prop where
  whole : '/' ∉ cs
  unescaped : ∀ code ∈ ['0', '1'], ¬['~', code] <:+: cs
  unencoded : ∀ a b, isHex a → isHex b → ¬['%', a, b] <:+: cs

theorem length_substitute_le (code by_ : Char) (cs : List Char) : (substitute code by_ cs).length ≤ cs.length := by
  fun_induction substitute code by_ cs <;> simp_all
  omega

theorem substitute_cases (code by_ : Char) (cs : List Char) :
    (substitute code by_ cs = cs ∧ ¬['~', code] <:+: cs) ∨
      ((substitute code by_ cs).length < cs.length ∧ ['~', code] <:+: cs) := by
  fun_induction substitute code by_ cs with
  | case1 rest =>
    have := length_substitute_le code by_ rest
    exact .inr ⟨by simp; omega, [], rest, rfl⟩
  | case2 c rest other ih =>
    refine ih.imp (fun ⟨same, absent⟩ => ⟨congrArg _ same, fun found => ?_⟩) fun ⟨shorter, inside⟩ =>
      ⟨Nat.succ_lt_succ shorter, List.infix_cons inside⟩
    rcases List.infix_cons_iff.1 found with front | inside
    · exact other (List.cons_prefix_cons.1 (List.cons_prefix_cons.1 front).2).1.symm
    · exact absent inside
  | case3 c rest plain ih =>
    refine ih.imp (fun ⟨same, absent⟩ => ⟨congrArg _ same, fun found => ?_⟩) fun ⟨shorter, inside⟩ =>
      ⟨Nat.succ_lt_succ shorter, List.infix_cons inside⟩
    rcases List.infix_cons_iff.1 found with front | inside
    · obtain ⟨rfl, after, rfl⟩ := List.cons_prefix_cons.1 front
      exact plain _ _ rfl rfl
    · exact absent inside
  | case4 => exact .inl ⟨rfl, fun found => nomatch List.eq_nil_of_infix_nil found⟩

theorem length_segment_le (cs : List Char) : (segment cs).length ≤ cs.length :=
  (length_substitute_le ..).trans (length_substitute_le ..)

theorem segment_eq_iff (cs : List Char) : segment cs = cs ↔ ∀ code ∈ ['0', '1'], ¬['~', code] <:+: cs := by
  unfold segment
  rcases substitute_cases '1' '/' cs with ⟨same, absent⟩ | ⟨shorter, present⟩
  · rw [same]
    rcases substitute_cases '0' '~' cs with ⟨same', absent'⟩ | ⟨shorter, present⟩
    · refine iff_of_true same' fun code listed => ?_
      rcases List.mem_pair.1 listed with rfl | rfl
      · exact absent'
      · exact absent
    · refine iff_of_false (fun same => ?_) fun each => each '0' (by simp) present
      rw [same] at shorter
      exact shorter.false
  · refine iff_of_false (fun same => ?_) fun each => each '1' (by simp) present
    have le := length_substitute_le '0' '~' (substitute '1' '/' cs)
    rw [same] at le
    omega

theorem splitAtSlashes_ne (cs : List Char) : splitAtSlashes cs ≠ [] := by
  fun_cases splitAtSlashes cs <;> simp

theorem splitAtSlashes_single {cs : List Char} : splitAtSlashes cs = [ds] ↔ '/' ∉ cs ∧ ds = cs := by
  by_cases slash : '/' ∈ cs
  · refine iff_of_false (fun single => ?_) fun both => both.1 slash
    obtain ⟨front, rest, rfl, fresh⟩ := List.eq_append_cons_of_mem slash
    rw [splitAtSlashes_slash fun c member same => fresh (same ▸ member)] at single
    exact splitAtSlashes_ne rest (List.cons.inj single).2
  · rw [splitAtSlashes_plain fun c member same => slash (same ▸ member)]
    exact ⟨fun same => ⟨slash, (List.cons.inj same).1.symm⟩, fun both => both.2 ▸ rfl⟩

theorem escapes_nil_iff {cs : List Char} :
    (escapes cs).1 = [] ↔ ∀ a b, isHex a → isHex b → ¬['%', a, b] <+: cs := by
  fun_cases escapes cs with
  | case1 a b rest low high first second =>
    refine iff_of_false (List.cons_ne_nil _ _) fun each => each a b ?_ ?_ ⟨rest, rfl⟩
    · exact Option.isSome_iff_exists.2 ⟨_, second⟩
    · exact Option.isSome_iff_exists.2 ⟨_, first⟩
  | case2 a b rest other =>
    refine iff_of_true rfl fun a' b' first second front => ?_
    obtain ⟨after, same⟩ := front
    cases same
    obtain ⟨high, first⟩ := Option.isSome_iff_exists.1 first
    obtain ⟨low, second⟩ := Option.isSome_iff_exists.1 second
    exact other high low first second
  | case3 cs plain =>
    refine iff_of_true rfl ?_
    rintro a b - - ⟨rest, rfl⟩
    exact plain a b rest rfl

theorem length_escapes (cs : List Char) : 3 * (escapes cs).1.length + (escapes cs).2.length = cs.length := by
  fun_induction escapes cs <;> simp_all
  omega

theorem length_le_utf8Len (cs : List Char) : cs.length ≤ String.utf8Len cs := by
  induction cs with
  | nil => exact Nat.zero_le _
  | cons c rest ih =>
    rw [String.utf8Len_cons, List.length_cons]
    have := c.utf8Size_pos
    omega

theorem length_of_fromUTF8? {bytes : List UInt8} (read : String.fromUTF8? ⟨bytes.toArray⟩ = some s) :
    s.toList.length ≤ bytes.length := by
  unfold String.fromUTF8? at read
  split at read
  · cases read
    have := length_le_utf8Len (String.fromUTF8 ⟨bytes.toArray⟩ ‹_›).toList
    rw [← String.utf8ByteSize_ofList, String.ofList_toList] at this
    exact this
  · cases read

theorem decode_cases {cs ds : List Char} (decoded : decode cs = some ds) :
    (ds = cs ∧ ∀ a b, isHex a → isHex b → ¬['%', a, b] <:+: cs) ∨ ds.length < cs.length := by
  fun_induction decode cs generalizing ds with
  | case1 =>
    cases decoded
    exact .inl ⟨rfl, fun a b _ _ found => nomatch List.eq_nil_of_infix_nil found⟩
  | case2 c rest after found ih =>
    obtain ⟨others, inner, rfl⟩ := Option.map_eq_some_iff.1 decoded
    have front := escapes_nil_iff.1 (congrArg Prod.fst found)
    refine (ih inner).imp (fun ⟨same, absent⟩ => ⟨congrArg _ same, fun a b high low inside => ?_⟩) Nat.succ_lt_succ
    rcases List.infix_cons_iff.1 inside with here | inside
    · exact front a b high low here
    · exact absent a b high low inside
  | case3 c rest byte bytes after found ih =>
    obtain ⟨s, read, decoded⟩ := Option.bind_eq_some_iff.1 decoded
    obtain ⟨others, inner, decoded⟩ := Option.bind_eq_some_iff.1 decoded
    cases decoded
    have spelled := length_of_fromUTF8? read
    have total := length_escapes (c :: rest)
    have le : others.length ≤ after.length := (ih inner).elim (fun both => both.1 ▸ le_rfl) le_of_lt
    rw [found] at total
    simp only [List.length_append, List.length_cons] at spelled total ⊢
    omega

theorem decode_literal {cs : List Char} (absent : ∀ a b, isHex a → isHex b → ¬['%', a, b] <:+: cs) :
    decode cs = some cs := by
  induction cs with
  | nil => rw [decode]
  | cons c rest ih =>
    have front : (escapes (c :: rest)).1 = [] :=
      escapes_nil_iff.2 fun a b high low here => absent a b high low here.isInfix
    rw [decode]
    split
    · rw [ih fun a b high low inside => absent a b high low (List.infix_cons inside)]
      rfl
    · rename_i found
      rw [found] at front
      cases front

theorem decode_append {front : List Char} (plain : ∀ c ∈ front, c ≠ '%') (cs : List Char) :
    decode (front ++ cs) = (decode cs).map (front ++ ·) := by
  induction front with
  | nil => exact (congrFun Option.map_id _).symm
  | cons c rest ih =>
    rw [List.cons_append, decode]
    split
    · rw [ih fun d member => plain d (List.mem_cons_of_mem _ member), Option.map_map]
      rfl
    · rename_i found
      rw [escapes_other (plain c List.mem_cons_self)] at found
      cases found

-- A text comes back out of a pointer as one segment if and only if it is literal.
theorem literal_iff (cs : List Char) :
    ((decode cs).map fun ds => (splitAtSlashes ds).map segment) = some [cs] ↔ Literal cs := by
  constructor
  · intro same
    obtain ⟨ds, decoded, same⟩ := Option.map_eq_some_iff.1 same
    obtain ⟨piece, single, back⟩ := List.map_eq_singleton_iff.1 same
    obtain ⟨whole, rfl⟩ := splitAtSlashes_single.1 single
    have le : cs.length ≤ piece.length := back ▸ length_segment_le piece
    obtain ⟨rfl, unencoded⟩ := (decode_cases decoded).resolve_right le.not_gt
    exact ⟨whole, (segment_eq_iff piece).1 back, unencoded⟩
  · intro literal
    rw [decode_literal literal.unencoded, Option.map_some, splitAtSlashes_single.2 ⟨literal.whole, rfl⟩, List.map_singleton,
      (segment_eq_iff cs).2 literal.unescaped]

end Pointer

namespace Container

theorem key_bare (c : Container) : c.key.toList.all (fun d => d != '%' && d != '/') = true ∧
    Pointer.segment c.key.toList = c.key.toList := by
  cases c <;> exact ⟨by decide, by decide⟩

theorem key_ne (c : Container) : ∀ d ∈ c.key.toList, d ≠ '%' ∧ d ≠ '/' := by
  intro d member
  have bare := List.all_eq_true.1 c.key_bare.1 d member
  rwa [Bool.and_eq_true, bne_iff_ne, bne_iff_ne] at bare

theorem way?_pointer (c : Container) (name : String) :
    Pointer.way? (c.pointer name) = (Pointer.decode name.toList).map fun cs =>
      c.key :: (Pointer.splitAtSlashes cs).map fun piece => String.ofList (Pointer.segment piece) := by
  have written : (c.pointer name).toList = '#' :: ('/' :: c.key.toList ++ '/' :: name.toList) := by
    unfold pointer
    simp
  have plain : ∀ d ∈ '/' :: c.key.toList ++ ['/'], d ≠ '%' := by
    intro d member
    rcases List.mem_append.1 member with member | last
    · rcases List.mem_cons.1 member with rfl | inside
      · decide
      · exact (c.key_ne d inside).1
    · rw [List.mem_singleton.1 last]
      decide
  have decoded : Pointer.decode ('/' :: c.key.toList ++ '/' :: name.toList) =
      (Pointer.decode name.toList).map (('/' :: c.key.toList ++ ['/']) ++ ·) := by
    rw [← Pointer.decode_append plain, List.append_assoc, List.singleton_append]
  unfold Pointer.way?
  rw [written]
  change (Pointer.decode _).bind _ = _
  rw [decoded]
  cases Pointer.decode name.toList with
  | none => rfl
  | some cs =>
    have split : Pointer.splitAtSlashes ('/' :: c.key.toList ++ ['/'] ++ cs) = [] :: c.key.toList :: Pointer.splitAtSlashes cs := by
      rw [List.append_assoc, List.singleton_append, List.cons_append, Pointer.splitAtSlashes,
        Pointer.splitAtSlashes_slash fun d member => (c.key_ne d member).2]
    dsimp only [Option.map_some, Option.bind_eq_bind, Option.bind_some]
    rw [split]
    dsimp only
    rw [List.map_cons, c.key_bare.2, String.ofList_toList]

-- A reference leads to the place of a definition if and only if the name of that is literal.
theorem way?_iff (c : Container) (name : String) :
    Pointer.way? (c.pointer name) = some [c.key, name] ↔ Pointer.Literal name.toList := by
  rw [way?_pointer, ← Pointer.literal_iff]
  cases Pointer.decode name.toList with
  | none => exact iff_of_false nofun nofun
  | some cs =>
    rw [Option.map_some, Option.map_some, Option.some_inj, Option.some_inj, List.cons_inj_right, List.map_eq_singleton_iff,
      List.map_eq_singleton_iff]
    refine exists_congr fun piece => and_congr_right fun _ => ?_
    rw [← String.toList_inj, String.toList_ofList]

end Container

namespace Registry
variable {r : Registry} {options : SchemaOptions} {container : List (String × Json)}

theorem schemaDocument_root (rooted : options.root = some root) (container : List (String × Json)) :
    (schemaDocument options container).field? "$ref" = some (.string (options.container.pointer root)) := by
  obtain ⟨_, id, title, description, c⟩ := options
  cases rooted
  cases id <;> cases title <;> cases description <;> rfl

theorem target?_pointer {name : String} (literal : Pointer.Literal name.toList) :
    Pointer.target? (schemaDocument options container) (options.container.pointer name) = Table.get? container name := by
  have found := schemaDocument_container options container
  unfold Pointer.target?
  rw [(options.container.way?_iff name).2 literal]
  change Pointer.along? _ _ = _
  cases document : schemaDocument options container with
  | object fields =>
    rw [document] at found
    change Table.get? fields _ = _ at found
    rw [Pointer.along?, found]
    change Pointer.along? (.object container) [name] = _
    rw [Pointer.along?]
    cases Table.get? container name <;> rfl
  | _ =>
    rw [document] at found
    cases found

def Leads (document : Json) (c : Container) (shapes : Table Node) (target : String) : Prop :=
  ∃ k, (target, k) ∈ shapes ∧
    (Pointer.way? (c.pointer target) = some [c.key, target] ↔ Pointer.Literal target.toList) ∧
    (Pointer.Literal target.toList → Pointer.target? document (c.pointer target) = some (k.schema c))

theorem leads_of_mem {shapes : Table Node} (distinct : shapes.keys.Nodup) (listed : target ∈ shapes.keys) :
    Leads (schemaDocument options (shapes.map fun shape => (shape.1, shape.2.schema options.container)))
      options.container shapes target := by
  obtain ⟨k, member⟩ := Table.exists_of_mem_keys listed
  refine ⟨k, member, options.container.way?_iff target, fun literal => ?_⟩
  rw [target?_pointer literal]
  refine Table.get?_of_mem ?_ (List.mem_map_of_mem (f := fun shape : String × Node => (shape.1, shape.2.schema options.container)) member)
  have keys : Table.keys (shapes.map fun shape => (shape.1, shape.2.schema options.container)) = shapes.keys := by
    unfold Table.keys
    rw [List.map_map]
    rfl
  exact keys ▸ distinct

-- Every reference in a document is made for a definition that has its schema there. It describes the
-- way to that place if and only if the name is literal, since it is written as it is.
theorem references_lead {names : List String} (written : r.schemaFor names options m = (.ok document, m')) :
    ∃ shapes : Table Node, (∀ name k, (name, k) ∈ shapes → r.Tells (fun _ => True) name .external (some k)) ∧
      document = schemaDocument options (shapes.map fun shape => (shape.1, shape.2.schema options.container)) ∧
      (∀ root, options.root = some root →
        document.field? "$ref" = some (.string (options.container.pointer root)) ∧
        Leads document options.container shapes root) ∧
      ∀ name k (x : Node) target, (name, k) ∈ shapes → x.WrittenPart k → x.referenceName? = some target →
        (∃ fields, x.schema options.container = .object fields ∧
          Table.get? fields "$ref" = some (.string (options.container.pointer target))) ∧
        Leads document options.container shapes target := by
  obtain ⟨shapes, slots, gathered, taken, rfl, rooted⟩ := schemaFor_written written
  have told := (gatherShapes_tells (.always r) gathered trivial).1.2
  have leads : ∀ target ∈ shapes.keys, Leads _ options.container shapes.reverse target := fun target listed =>
    leads_of_mem (Table.keys_reverse shapes ▸ List.nodup_reverse.2 taken.distinct) (Table.keys_reverse shapes ▸ List.mem_reverse.2 listed)
  rw [filledSlots_finished taken]
  refine ⟨shapes.reverse, fun name k member => (told name k (List.mem_reverse.1 member)).resolve_left nofun, rfl, ?_, ?_⟩
  · exact fun root same => ⟨schemaDocument_root same _, leads root (rooted root same)⟩
  · intro name k x target member part named
    exact ⟨Node.schema_reference options.container named,
      leads target (finished_reference taken (List.mem_reverse.1 member) part named)⟩

def marked : Registry := ⟨[⟨"~b 50% off", .string⟩], by decide, .builtIn⟩

theorem references_lead_marked : ∃ (document : Json) (n : Node),
    (marked.schema ⟨some "~b 50% off", none, none, none, .defs⟩ .blank).1 = .ok document ∧
    document.field? "$ref" = some (.string "#/$defs/~b 50% off") ∧
    Pointer.target? document "#/$defs/~b 50% off" = some (n.schema .defs) := by
  have succeeds : (marked.schema ⟨some "~b 50% off", none, none, none, .defs⟩ .blank).1.isOk = true := by cbv
  rcases written : marked.schema ⟨some "~b 50% off", none, none, none, .defs⟩ .blank with ⟨e | document, m'⟩
  · rw [written] at succeeds
    cases succeeds
  · obtain ⟨shapes, -, -, rooted, -⟩ := references_lead written
    obtain ⟨found, n, -, -, leads⟩ := rooted _ rfl
    exact ⟨document, n, rfl, found, leads ((Pointer.literal_iff _).1 (by cbv))⟩

def slashed : Registry := ⟨[⟨"A/B", .string⟩], by decide, .builtIn⟩

theorem references_lead_astray : ∃ document : Json,
    (slashed.schema ⟨some "A/B", none, none, none, .definitions⟩ .blank).1 = .ok document ∧
    document.field? "$ref" = some (.string "#/definitions/A/B") ∧
    document.field? "definitions" = some (.object [("A/B", .object [("type", .string "string")])]) ∧
    Pointer.target? document "#/definitions/A/B" = none :=
  ⟨.object [("$schema", .string draft07), ("$ref", .string "#/definitions/A/B"),
    ("definitions", .object [("A/B", .object [("type", .string "string")])])], by cbv, rfl, rfl, by cbv⟩

end Registry
end TwinShape
