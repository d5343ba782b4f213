import TwinShape.Proofs.Schema.Shapes
import TwinShape.Proofs.Schema.Vocabulary

namespace TwinShape

theorem get?_filledSlots {slots : Table (Option Json)} (distinct : slots.keys.Nodup) (name : String) :
    Table.get? (filledSlots slots) name = (slots.get? name).join := by
  induction slots with
  | nil => rfl
  | cons slot rest ih =>
    obtain ⟨key, schema⟩ := slot
    obtain ⟨fresh, others⟩ := List.nodup_cons.1 distinct
    rw [Table.get?_cons]
    cases schema with
    | none =>
      change Table.get? (filledSlots rest) name = _
      rw [ih others]
      by_cases same : name = key
      · have absent : Table.get? rest name = none := by
          by_contra found
          obtain ⟨a, found⟩ := Option.ne_none_iff_exists'.1 found
          exact fresh (same ▸ Table.mem_keys_iff.2 ⟨a, found⟩)
        rw [if_pos same, absent]
        rfl
      · rw [if_neg same]
    | some schema =>
      change Table.get? ((key, schema) :: filledSlots rest) name = _
      rw [Table.get?_cons, ih others]
      by_cases same : name = key
      · rw [if_pos same, if_pos same]
        rfl
      · rw [if_neg same, if_neg same]

theorem Slots.get? {shapes : Table Node} {slots : Table (Option Json)} (held : Slots c [] shapes slots)
    (name : String) :
    Table.get? (filledSlots slots) name = (shapes.get? name).map (·.written c) := by
  rw [get?_filledSlots held.distinct, held.slot]
  cases shapes.get? name <;> rfl

theorem filledSlots_keys (slots : Table (Option Json)) : (Table.keys (filledSlots slots)).Sublist slots.keys := by
  induction slots with
  | nil => exact .slnil
  | cons slot rest ih =>
    obtain ⟨key, schema⟩ := slot
    cases schema with
    | none => exact .cons key ih
    | some schema => exact .cons_cons key ih

def writtenKeys : List String := ["title", "description"] ++ shapeKeys ++ ["examples", "default", "deprecated"]

theorem Node.annotated_keys (n : Node) {fields : List (String × Json)} (inner : ∀ f ∈ fields, f.1 ∈ writtenKeys) :
    ∀ f ∈ n.annotated fields, f.1 ∈ writtenKeys := by
  have heading : ∀ f ∈ n.heading, f.1 ∈ writtenKeys := by
    unfold Node.heading writtenKeys
    cases n.annotations.title <;> cases n.annotations.description <;> simp
  have remarks : ∀ f ∈ n.remarks, f.1 ∈ writtenKeys := by
    unfold Node.remarks writtenKeys
    cases n.annotations.examples <;> cases n.default? <;> cases n.annotations.deprecated <;> simp
  intro f member
  rcases Table.mem_setAll member with remark | member
  · exact remarks f remark
  · exact (Table.mem_setAll member).elim (inner f) (heading f)

theorem Node.fields_keys (c : Container) (n : Node) : ∀ f ∈ n.fields c, f.1 ∈ writtenKeys := by
  induction n using Node.core_induction with
  | own n plain _ =>
    rw [Node.fields_eq]
    refine n.annotated_keys fun f member => ?_
    have key := (shapeFields_keys c n.annotations.pattern plain).subset (List.mem_map_of_mem (f := (·.1)) member)
    exact List.mem_append_left _ (List.mem_append_right _ key)
  | linked n side declaration shape _ ih =>
    rw [Node.fields_eq, shape, shapeFields]
    exact n.annotated_keys ih

theorem writtenKeys_known : ∀ key ∈ writtenKeys, KeywordName.ofKey key = .other → key = "default" := by decide

theorem writtenKeys_undefined : ∀ key ∈ writtenKeys, KeywordName.ofKey key ≠ .definitions := by decide

namespace Node
variable {names : List String} {n : Node}

theorem Orderly.takes (orderly : n.Orderly names) : ∀ f ∈ n.fields .definitions, (KeywordName.ofKey f.1).Takes f.2 := by
  intro f member
  cases idle : isEssential f.1 with
  | false => exact (n.fields_wraps .definitions).harmless f member idle
  | true =>
    have states := n.renders_written.states orderly ⟨_, f.1, rfl, member, rfl⟩ (by simpa [isEssential] using idle)
    exact states.takes orderly.core.here

theorem Orderly.holds (orderly : n.Orderly names) (holds : (n.written .definitions).Holds t) :
    (∃ b, t = .bool b) ∨ ∃ c ∈ n.inner, t = c.written .definitions := by
  obtain ⟨name, value, stated, member⟩ := holds
  refine n.renders_written.under orderly stated member ?_
  obtain ⟨_, key, ⟨⟩, field, rfl⟩ := stated
  exact writtenKeys_undefined _ (n.fields_keys .definitions _ field)

theorem WrittenPart.trans {x y n : Node} (first : x.WrittenPart y) (second : y.WrittenPart n) : x.WrittenPart n := by
  induction second with
  | self => exact first
  | inside child _ ih => exact .inside child (ih first)

theorem core_part (n : Node) : n.core.WrittenPart n := by
  induction n using core_induction with
  | own n plain same =>
    rw [same]
    exact .self
  | linked n side declaration shape same ih =>
    rw [same]
    refine .inside ?_ ih
    rw [shape]
    exact List.mem_cons_self

theorem inner_part {c : Node} (member : c ∈ n.inner) : c.WrittenPart n := .trans (.inside member .self) n.core_part

theorem Orderly.part {x : Node} (orderly : n.Orderly names) (part : x.WrittenPart n) : x.Orderly names := by
  induction part with
  | self => exact orderly
  | inside child _ ih => exact ih (orderly.child child)

theorem mem_gather {own : Node → List α} : a ∈ n.gather own ↔ ∃ x : Node, x.WrittenPart n ∧ a ∈ own x := by
  constructor
  · intro member
    induction n using Node.tree_induction with
    | node n ih =>
      rw [Node.gather_eq] at member
      rcases List.mem_append.1 member with here | below
      · exact ⟨n, .self, here⟩
      · obtain ⟨c, child, inside⟩ := List.mem_flatMap.1 below
        obtain ⟨x, part, own⟩ := ih c (Shape.child_of_written child) inside
        exact ⟨x, .inside child part, own⟩
  · rintro ⟨x, part, own⟩
    induction part with
    | self =>
      rw [Node.gather_eq]
      exact List.mem_append_left _ own
    | inside child _ ih =>
      rw [Node.gather_eq]
      exact List.mem_append_right _ (List.mem_flatMap.2 ⟨_, child, ih own⟩)

end Node

-- The schema of a node with the schemas of these shapes as its definitions, and with
-- nothing else but the name of the dialect.
structure Sheet (fields : List (String × Json)) (n : Node) (shapes : Table Node) : Prop where
  plain : ∀ name ∈ shapes.keys, isPlainName name
  shaped : ∀ name k, shapes.get? name = some k → k.Orderly shapes.keys
  orderly : n.Orderly shapes.keys
  distinct : (Table.keys fields).Nodup
  container : ∃ slots, Slots .definitions [] shapes slots ∧ Table.get? fields "definitions" = some (.object (filledSlots slots))
  essential : fields.filter (isEssential ·.1) = (n.fields .definitions).filter (isEssential ·.1)
  others : ∀ f ∈ fields, f ∈ n.fields .definitions ∨ f.1 = "definitions" ∨ f = ("$schema", .string Registry.draft07)

def Stems (origins : Node → Prop) (k : Node) : Prop := ∃ origin, origins origin ∧ k.WrittenPart origin

theorem Stems.inner {origins : Node → Prop} {k c : Node} (stems : Stems origins k) (member : c ∈ k.inner) :
    Stems origins c := by
  obtain ⟨origin, source, part⟩ := stems
  exact ⟨origin, source, (Node.inner_part member).trans part⟩

namespace Sheet
variable {fields : List (String × Json)} {n : Node} {shapes : Table Node} (sheet : Sheet fields n shapes)
include sheet

theorem keeps : Keeps (.object fields) shapes := by
  obtain ⟨slots, held, found⟩ := sheet.container
  refine ⟨sheet.shaped, fun name k known => ?_⟩
  rw [resolve?_pointer (sheet.plain name (Table.mem_keys_iff.2 ⟨k, known⟩)) _ _ found, held.get?, known]
  rfl

theorem renders : n.Renders (.object fields) :=
  ⟨fields, rfl, sheet.essential.trans (n.fields_wraps .definitions).essential⟩

theorem accepts_iff {p : PatternReading} {j : Json} :
    Accepts p (.object fields) (.object fields) j ↔ Conforms p meetsConstant shapes n j := by
  rw [← sheet.keeps.accepts_iff sheet.orderly, TwinShape.accepts_iff, TwinShape.accepts_iff, accepting_essential sheet.essential]
  exact (accepting_essential rfl).symm

theorem definitions_eq (member : ("definitions", value) ∈ fields) :
    ∃ slots, Slots .definitions [] shapes slots ∧ value = .object (filledSlots slots) := by
  obtain ⟨slots, held, found⟩ := sheet.container
  cases (Table.get?_of_mem sheet.distinct member).symm.trans found
  exact ⟨slots, held, rfl⟩

theorem holds_shape (known : shapes.get? name = some k) : (Json.object fields).Holds (k.written .definitions) := by
  obtain ⟨slots, held, found⟩ := sheet.container
  refine ⟨.definitions, _, ⟨fields, "definitions", rfl, Table.mem_of_get? found, rfl⟩, ?_⟩
  have filled : Table.get? (filledSlots slots) name = some (k.written .definitions) := by
    rw [held.get?, known]
    rfl
  exact List.mem_map_of_mem (f := (·.2)) (Table.mem_of_get? filled)

theorem holds (holds : (Json.object fields).Holds t) :
    (∃ b, t = .bool b) ∨ (∃ c ∈ n.inner, t = c.written .definitions) ∨ ∃ name k, shapes.get? name = some k ∧ t = k.written .definitions := by
  obtain ⟨name, value, stated, member⟩ := holds
  by_cases other : name = .definitions
  · subst other
    obtain ⟨_, key, ⟨⟩, field, same⟩ := stated
    have key_eq : key = "definitions" := by
      rcases sheet.others _ field with own | here | dialect
      · exact absurd same (writtenKeys_undefined _ (n.fields_keys .definitions _ own))
      · exact here
      · cases dialect
        cases same
    subst key_eq
    obtain ⟨slots, held, rfl⟩ := sheet.definitions_eq field
    obtain ⟨⟨name, schema⟩, listed, rfl⟩ := List.mem_map.1 member
    have found := Table.get?_of_mem ((filledSlots_keys slots).nodup held.distinct) listed
    rw [held.get?] at found
    obtain ⟨k, known, rfl⟩ := Option.map_eq_some_iff.1 found
    exact .inr (.inr ⟨name, k, known, rfl⟩)
  · exact (sheet.renders.under sheet.orderly stated member other).imp_right .inl

def Source (shapes : Table Node) (n origin : Node) : Prop := origin = n ∨ ∃ name, shapes.get? name = some origin

theorem orderly_of_stems (stems : Stems (Source shapes n) k) : k.Orderly shapes.keys := by
  obtain ⟨origin, rfl | ⟨name, known⟩, part⟩ := stems
  · exact sheet.orderly.part part
  · exact (sheet.shaped name origin known).part part

theorem within (inside : (Json.object fields).Within s) :
    s = .object fields ∨ (∃ b, s = .bool b) ∨ ∃ k, Stems (Source shapes n) k ∧ s = k.written .definitions := by
  induction inside with
  | refl => exact .inl rfl
  | tail _ step ih =>
    rcases ih with rfl | ⟨b, rfl⟩ | ⟨k, stems, rfl⟩
    · rcases sheet.holds step with bool | ⟨c, member, rfl⟩ | ⟨name, k, known, rfl⟩
      · exact .inr (.inl bool)
      · exact .inr (.inr ⟨c, ⟨n, .inl rfl, Node.inner_part member⟩, rfl⟩)
      · exact .inr (.inr ⟨k, ⟨k, .inr ⟨name, known⟩, .self⟩, rfl⟩)
    · obtain ⟨_, _, ⟨_, _, same, _⟩, _⟩ := step
      cases same
    · rcases (sheet.orderly_of_stems stems).holds step with bool | ⟨c, member, rfl⟩
      · exact .inr (.inl bool)
      · exact .inr (.inr ⟨c, stems.inner member, rfl⟩)

theorem rendered (inside : (Json.object fields).Within s) :
    (∃ b, s = .bool b) ∨ ∃ k : Node, Stems (Source shapes n) k ∧ k.Orderly shapes.keys ∧ k.Renders s := by
  rcases sheet.within inside with rfl | bool | ⟨k, stems, rfl⟩
  · exact .inr ⟨n, ⟨n, .inl rfl, .self⟩, sheet.orderly, sheet.renders⟩
  · exact .inl bool
  · exact .inr ⟨k, stems, sheet.orderly_of_stems stems, k.renders_written⟩

theorem leads {s t : Json} {k : Node} (orderly : k.Orderly shapes.keys) (renders : k.Renders s)
    (leads : s.LeadsTo (.object fields) t) :
    ∃ name m, k.core.shape = .reference name ∧ shapes.get? name = some m ∧ t = m.written .definitions := by
  obtain ⟨text, stated, found⟩ := leads
  obtain ⟨name, shape, same⟩ := renders.reference orderly stated
  cases same
  obtain ⟨m, known⟩ := Table.mem_keys_iff.1 (orderly.core.named shape)
  cases (sheet.keeps.place name m known).symm.trans found
  exact ⟨name, m, shape, known, rfl⟩

theorem takes (field : (key, value) ∈ fields) : (KeywordName.ofKey key).Takes value := by
  rcases sheet.others _ field with own | here | dialect
  · exact sheet.orderly.takes _ own
  · cases here
    obtain ⟨slots, held, rfl⟩ := sheet.definitions_eq field
    exact ⟨_, rfl, (filledSlots_keys slots).nodup held.distinct⟩
  · cases dialect
    trivial

-- Sheets are among the documents that checkers are asked about.
theorem plain_document : (Json.object fields).Plain := by
  constructor
  · intro s inside
    rcases sheet.within inside with rfl | bool | ⟨k, stems, rfl⟩
    · exact .inr ⟨fields, rfl, sheet.distinct⟩
    · exact .inl bool
    · exact .inr ⟨_, rfl, (k.fields_wraps .definitions).distinct⟩
  · rintro s name value inside ⟨own, key, rfl, field, rfl⟩
    rcases sheet.within inside with same | ⟨b, ⟨⟩⟩ | ⟨k, stems, same⟩
    · cases same
      exact sheet.takes field
    · cases same
      exact (sheet.orderly_of_stems stems).takes _ field
  · intro own key value inside field other
    rcases sheet.within inside with same | ⟨b, ⟨⟩⟩ | ⟨k, stems, same⟩
    · cases same
      rcases sheet.others _ field with written | here | dialect
      · exact .inl (writtenKeys_known _ (n.fields_keys .definitions _ written) other)
      · cases here
        cases other
      · cases dialect
        exact .inr ⟨rfl, rfl, rfl⟩
    · cases same
      exact .inl (writtenKeys_known _ (k.fields_keys .definitions _ field) other)
  · intro s reference name value inside stated other
    rcases sheet.rendered inside with ⟨b, rfl⟩ | ⟨k, -, orderly, renders⟩
    · obtain ⟨_, _, ⟨⟩, _⟩ := stated
    · exact renders.lone orderly stated other
  · intro s text inside stated
    rcases sheet.rendered inside with ⟨b, rfl⟩ | ⟨k, -, orderly, renders⟩
    · obtain ⟨_, _, ⟨⟩, _⟩ := stated
    · obtain ⟨name, shape, same⟩ := renders.reference orderly stated
      cases same
      obtain ⟨m, known⟩ := Table.mem_keys_iff.1 (orderly.core.named shape)
      exact ⟨_, sheet.keeps.place name m known, .single (sheet.holds_shape known)⟩

-- A name that a node may come down to on the same instance.
omit sheet in
theorem bare_core {k : Node} {name : String} (bare : k.core.Bare name) : k.Bare name := by
  induction k using Node.core_induction with
  | own k plain same => rwa [same] at bare
  | linked k side declaration shape same ih =>
    rw [same] at bare
    exact .linked shape (ih bare)

theorem acc_rendered {k : Node} {s : Json} (orderly : k.Orderly shapes.keys) (renders : k.Renders s)
    (names : ∀ name m, k.Bare name → shapes.get? name = some m →
      Acc (fun after before => before.Becomes (.object fields) after) (m.written .definitions)) :
    Acc (fun after before => before.Becomes (.object fields) after) s := by
  refine ⟨_, fun t becomes => ?_⟩
  rcases becomes with ⟨values, stated, member⟩ | leads
  · obtain ⟨members, shape, same⟩ := renders.anyOf orderly stated
    cases same
    obtain ⟨m, listed, rfl⟩ := List.mem_map.1 member
    have inside : m ∈ k.inner := by
      unfold Node.inner
      rw [shape]
      exact listed
    exact acc_rendered (orderly.inner inside) m.renders_written fun name other bare =>
      names name other (bare_core (.member shape listed bare))
  · obtain ⟨name, m, shape, known, rfl⟩ := sheet.leads orderly renders leads
    exact names name m (bare_core (.reference shape)) known
termination_by sizeOf k
decreasing_by exact Node.sizeOf_inner inside

-- Where no name comes down to itself, no schema does.
theorem guarded {meaning : String → String → Prop}
    (founded : ∀ name, Acc (fun after before => meaning before after) name)
    (bare : ∀ name k other, shapes.get? name = some k → k.Bare other → meaning name other) : (Json.object fields).Guarded := by
  have named : ∀ name m, shapes.get? name = some m →
      Acc (fun after before => before.Becomes (.object fields) after) (m.written .definitions) := by
    intro name
    induction founded name with
    | intro name _ ih =>
      intro m known
      exact sheet.acc_rendered (sheet.shaped name m known) m.renders_written fun other k comes found =>
        ih other (bare name m other known comes) k found
  intro s inside
  rcases sheet.rendered inside with ⟨b, rfl⟩ | ⟨k, -, orderly, renders⟩
  · refine ⟨_, fun t becomes => ?_⟩
    rcases becomes with ⟨_, ⟨_, _, ⟨⟩, _⟩, _⟩ | ⟨_, ⟨_, _, ⟨⟩, _⟩, _⟩
  · exact sheet.acc_rendered orderly renders fun name m _ known => named name m known

end Sheet

def RefersTo (shapes : Table Node) (name other : String) : Prop := ∃ n, shapes.get? name = some n ∧ other ∈ n.references

-- All patterns that can be reached from these names can be used.
def Legible (p : PatternReading) (starts : List String) (shapes : Table Node) : Prop :=
  ∀ start ∈ starts, ∀ name n, Relation.ReflTransGen (RefersTo shapes) start name → shapes.get? name = some n →
    ∀ text ∈ n.patterns, (p.search? text).isSome = true

def Node.IsLegible (p : PatternReading) (shapes : Table Node) (n : Node) : Prop :=
  (∀ text ∈ n.patterns, (p.search? text).isSome = true) ∧ Legible p n.references shapes

theorem Node.core_string {x : Node} (member : text ∈ x.ownPatterns) : text ∈ x.core.ownPatterns := by
  have own : ∀ declaration side, x.shape ≠ .linked declaration side := by
    intro declaration side same
    unfold Node.ownPatterns at member
    rw [same] at member
    cases member
  rwa [Node.core_other own]

namespace Sheet
variable {fields : List (String × Json)} {n : Node} {shapes : Table Node} (sheet : Sheet fields n shapes)

-- The nodes that are written in a node are met in its schema.
omit sheet in
theorem meets {R : Json → Json → Prop}
    (step : ∀ s t, s.Contains t → R s t) {names : List String} {k x : Node} {s : Json} (orderly : k.Orderly names) (renders : k.Renders s) (part : x.WrittenPart k) :
    ∃ t, Relation.ReflTransGen R s t ∧ x.Renders t := by
  induction part generalizing s with
  | self => exact ⟨s, .refl, renders⟩
  | @inside c _ k child _ ih =>
    by_cases own : ∀ declaration side, k.shape ≠ .linked declaration side
    · have inside : c ∈ k.inner := by rwa [Node.inner, Node.core_other own]
      obtain ⟨t, path, last⟩ := ih (orderly.child child) c.renders_written
      exact ⟨t, path.head (step _ _ (renders.contains orderly inside)), last⟩
    · cases shape : k.shape with
      | linked declaration side =>
        rw [shape] at child
        cases List.mem_singleton.1 child
        exact ih (orderly.child (by rw [shape]; exact List.mem_cons_self)) (renders.side shape)
      | _ => exact absurd (fun declaration side same => by cases shape.symm.trans same) own

include sheet

theorem refers {k : Node} {s : Json} (orderly : k.Orderly shapes.keys) (renders : k.Renders s)
    (referred : name ∈ k.references)
    (known : shapes.get? name = some m) : Relation.ReflTransGen (·.Uses (.object fields) ·) s (m.written .definitions) := by
  obtain ⟨x, part, named⟩ := Node.mem_gather.1 referred
  have shape : x.shape = .reference name := by
    have same := Option.mem_toList.1 named
    unfold Node.referenceName? at same
    cases shape : x.shape <;> rw [shape] at same <;> cases same
    rfl
  obtain ⟨t, path, last⟩ := meets (R := (·.Uses (.object fields) ·)) (fun _ _ => .inl) orderly renders part
  have core : x.core.shape = .reference name := by
    rw [Node.core_other fun declaration side same => by cases shape.symm.trans same]
    exact shape
  exact path.tail (.inr ⟨_, last.named core, sheet.keeps.place name m known⟩)

def Reached (shapes : Table Node) (n origin : Node) : Prop :=
  origin = n ∨ ∃ start ∈ n.references, ∃ name, Relation.ReflTransGen (RefersTo shapes) start name ∧ shapes.get? name = some origin

omit sheet in
theorem source_of_reached (reached : Reached shapes n origin) : Source shapes n origin :=
  reached.imp_right fun ⟨_, _, name, _, known⟩ => ⟨name, known⟩

omit sheet in
theorem reached_refers (reached : Stems (Reached shapes n) k) (shape : k.core.shape = .reference name)
    (known : shapes.get? name = some m) :
    Reached shapes n m := by
  obtain ⟨origin, here, part⟩ := reached
  have referred : name ∈ origin.references := by
    refine Node.mem_gather.2 ⟨k.core, k.core_part.trans part, ?_⟩
    unfold Node.referenceName?
    rw [shape]
    exact List.mem_cons_self
  rcases here with rfl | ⟨start, listed, before, path, found⟩
  · exact .inr ⟨name, referred, name, .refl, known⟩
  · exact .inr ⟨start, listed, name, path.tail ⟨origin, found, referred⟩, known⟩

-- What checking can come to is of these nodes.
theorem uses (used : Relation.ReflTransGen (·.Uses (.object fields) ·) (.object fields) s) :
    (∃ b, s = .bool b) ∨ ∃ k : Node, Stems (Reached shapes n) k ∧ k.Renders s := by
  induction used with
  | refl => exact .inr ⟨n, ⟨n, .inl rfl, .self⟩, sheet.renders⟩
  | tail _ step ih =>
    rcases ih with ⟨b, rfl⟩ | ⟨k, stems, renders⟩
    · rcases step with ⟨_, _, _, ⟨_, _, ⟨⟩, _⟩, _⟩ | ⟨_, ⟨_, _, ⟨⟩, _⟩, _⟩
    · have orderly : k.Orderly shapes.keys := sheet.orderly_of_stems (stems.imp fun _ => And.imp_left source_of_reached)
      rcases step with ⟨name, value, other, stated, member⟩ | leads
      · rcases renders.under orderly stated member other with bool | ⟨c, inside, rfl⟩
        · exact .inl bool
        · exact .inr ⟨c, stems.inner inside, c.renders_written⟩
      · obtain ⟨name, m, shape, known, rfl⟩ := sheet.leads orderly renders leads
        exact .inr ⟨m, ⟨m, reached_refers stems shape known, .self⟩, m.renders_written⟩

theorem used {origin : Node} (reached : Reached shapes n origin) :
    ∃ s, Relation.ReflTransGen (·.Uses (.object fields) ·) (.object fields) s ∧ origin.Renders s := by
  rcases reached with rfl | ⟨start, listed, name, path, found⟩
  · exact ⟨_, .refl, sheet.renders⟩
  · refine ⟨_, ?_, origin.renders_written⟩
    induction path generalizing origin with
    | refl => exact sheet.refers sheet.orderly sheet.renders listed found
    | tail _ step ih =>
      obtain ⟨k, known, referred⟩ := step
      exact (ih known).trans (sheet.refers (sheet.shaped _ k known) k.renders_written referred found)

theorem allowed_iff {P : String → Prop} :
    (∀ s text, (Json.object fields).Within s → s.States .pattern (.string text) → P text) ↔
    ∀ origin, Source shapes n origin → ∀ text ∈ origin.patterns, P text := by
  constructor
  · intro all origin source text member
    obtain ⟨x, part, own⟩ := Node.mem_gather.1 member
    obtain ⟨s, inside, renders⟩ : ∃ s, (Json.object fields).Within s ∧ origin.Renders s := by
      rcases source with rfl | ⟨name, known⟩
      · exact ⟨_, .refl, sheet.renders⟩
      · exact ⟨_, .single (sheet.holds_shape known), origin.renders_written⟩
    have orderly : origin.Orderly shapes.keys := sheet.orderly_of_stems ⟨origin, source, .self⟩
    obtain ⟨t, path, last⟩ := meets (R := Json.Holds) (fun _ _ => Json.Contains.holds) orderly renders part
    exact all t text (inside.trans path) (last.ownPattern (Node.core_string own))
  · intro all s text inside stated
    rcases sheet.rendered inside with ⟨b, rfl⟩ | ⟨k, ⟨origin, source, part⟩, orderly, renders⟩
    · obtain ⟨_, _, ⟨⟩, _⟩ := stated
    · obtain ⟨_, own, same⟩ := renders.pattern orderly stated
      cases same
      exact all origin source text (Node.mem_gather.2 ⟨k.core, k.core_part.trans part, own⟩)

theorem readable_iff {p : PatternReading} :
    (∀ (s : Json) text, Relation.ReflTransGen (·.Uses (.object fields) ·) (.object fields) s →
    s.States .pattern (.string text) → (p.search? text).isSome = true) ↔ n.IsLegible p shapes := by
  constructor
  · intro all
    have each : ∀ origin, Reached shapes n origin → ∀ text ∈ origin.patterns, (p.search? text).isSome = true := by
      intro origin reached text member
      obtain ⟨x, part, own⟩ := Node.mem_gather.1 member
      obtain ⟨s, path, renders⟩ := sheet.used reached
      have orderly : origin.Orderly shapes.keys := sheet.orderly_of_stems ⟨origin, source_of_reached reached, .self⟩
      obtain ⟨t, further, last⟩ := meets (R := (·.Uses (.object fields) ·)) (fun _ _ => .inl) orderly renders part
      exact all t text (path.trans further) (last.ownPattern (Node.core_string own))
    exact ⟨each n (.inl rfl), fun start listed name k path known => each k (.inr ⟨start, listed, name, path, known⟩)⟩
  · rintro ⟨own, others⟩ s text used stated
    rcases sheet.uses used with ⟨b, rfl⟩ | ⟨k, ⟨origin, reached, part⟩, renders⟩
    · obtain ⟨_, _, ⟨⟩, _⟩ := stated
    · have orderly : k.Orderly shapes.keys := sheet.orderly_of_stems ⟨origin, source_of_reached reached, part⟩
      obtain ⟨_, here, same⟩ := renders.pattern orderly stated
      cases same
      have member : text ∈ origin.patterns := Node.mem_gather.2 ⟨k.core, k.core_part.trans part, here⟩
      rcases reached with rfl | ⟨start, listed, name, path, known⟩
      · exact own text member
      · exact others start listed name origin path known text member

theorem usable_iff {p : PatternReading} : (Json.object fields).Usable p ↔
    (Dialect.ofDocument (.object fields) = .draft07 → ∀ origin, Source shapes n origin → ∀ text ∈ origin.patterns, p.allowed text = true) ∧
      n.IsLegible p shapes := by
  rw [← sheet.readable_iff, ← sheet.allowed_iff]
  exact ⟨fun usable => ⟨usable.allowed, usable.readable⟩, fun ⟨allowed, readable⟩ => ⟨allowed, readable⟩⟩

end Sheet
end TwinShape
