import TwinShape.Declaration.Drafting
import TwinShape.Proofs.Node.Tree

namespace TwinShape

def Shape.typedNodes : Shape Node → List Node
  | .object o => o.properties.map (·.value) ++ o.additional.nodes
  | .array item => [item]
  | .union members => members
  | .linked declaration _ => [declaration]
  | _ => []

theorem Shape.child_of_typed {s : Shape Node} (member : c ∈ s.typedNodes) : c ∈ s.children := by
  cases s with
  | object o => exact List.mem_append_left _ member
  | linked declaration schema => exact List.mem_singleton.1 member ▸ List.mem_cons_self
  | array item | union members => exact member
  | _ => cases member

-- What the writing of declarations has before it: to declare a definition in a variant, to
-- find out whether its two shapes differ, or to take a name from a module.
inductive Errand where
  | declare (name : String) (v : Variant)
  | compare (name : String)
  | take (module name : String)

def Shape.errand? (v : Variant) : Shape Node → Option Errand
  | .reference name => some (.declare name v)
  | .imported name module => some (.take module name)
  | _ => none

-- What the type of a node sends for, in the order in which it is written.
def Node.errands (v : Variant) (n : Node) : List Errand :=
  (n.shape.errand? v).toList ++ n.shape.typedNodes.attach.flatMap fun c => c.val.errands v
termination_by sizeOf n
decreasing_by exact Node.sizeOf_child (Shape.child_of_typed c.property)

theorem Node.errands_eq (v : Variant) (n : Node) :
    n.errands v = (n.shape.errand? v).toList ++ n.shape.typedNodes.flatMap (Node.errands v) := by
  rw [Node.errands]
  congr 1
  induction n.shape.typedNodes with
  | nil => rfl
  | cons c rest ih => simp [List.attach_cons, List.flatMap_map, ih]

theorem Node.exists_sender {v : Variant} {n : Node} (sent : e ∈ n.errands v) :
    ∃ x : Node, x.Part n ∧ x.shape.errand? v = some e := by
  induction n using Node.tree_induction with
  | node n ih =>
    rw [Node.errands_eq] at sent
    rcases List.mem_append.1 sent with own | inner
    · exact ⟨n, .self, Option.mem_toList.1 own⟩
    · obtain ⟨c, child, inner⟩ := List.mem_flatMap.1 inner
      obtain ⟨x, part, sends⟩ := ih c (Shape.child_of_typed child) inner
      exact ⟨x, .inside (Shape.child_of_typed child) part, sends⟩

theorem Shape.errand?_cases {v : Variant} {s : Shape Node} (sends : s.errand? v = some e) :
    (∃ name, s = .reference name ∧ e = .declare name v) ∨ ∃ name module, s = .imported name module ∧ e = .take module name := by
  cases s with
  | reference name =>
    cases sends
    exact .inl ⟨name, rfl, rfl⟩
  | imported name module =>
    cases sends
    exact .inr ⟨name, module, rfl, rfl⟩
  | _ => cases sends

def memberOf (p : Property Node) (type : TypeExpr) : Member TypeExpr :=
  ⟨.ofNode p.value, p.name, p.value.isOptional, type⟩

def Additional.index (type : TypeExpr) : Additional ν → Option TypeExpr
  | .forbidden => none
  | .allowed => some (.keyword "unknown")
  | .shape _ => some type

inductive Node.Typed (given taken : String → String → Prop) : Nat → Node → TypeExpr → Prop
  | object (fields : List (Property Node × TypeExpr)) (shape : n.shape = .object ⟨fields.map (·.1), extra, parents⟩)
      (members : ∀ f ∈ fields, Typed given taken (depth + 1) f.1.value f.2)
      (further : ∀ a ∈ extra.nodes, Typed given taken (depth + 1) a rest) :
      Typed given taken depth n (.record (fields.map fun f => memberOf f.1 f.2) (extra.index rest))
  | array (shape : n.shape = .array item) (inner : Typed given taken depth item type) :
      Typed given taken depth n (.array type (needsGrouping item))
  | union (options : List (Node × TypeExpr)) (shape : n.shape = .union (options.map (·.1)))
      (each : ∀ o ∈ options, Typed given taken depth o.1 o.2) :
      Typed given taken depth n (.alternatives (TypeExpr.distinctOptions depth (options.map (·.2))))
  | enumeration (shape : n.shape = .enumeration values naming) :
      Typed given taken depth n (.alternatives (values.map .literal))
  | constant (shape : n.shape = .constant value) : Typed given taken depth n (.literal value)
  | string (shape : n.shape = .string) : Typed given taken depth n (.keyword "string")
  | number (shape : n.shape = .number ∨ n.shape = .integer) : Typed given taken depth n (.keyword "number")
  | boolean (shape : n.shape = .boolean) : Typed given taken depth n (.keyword "boolean")
  | null (shape : n.shape = .null) : Typed given taken depth n (.keyword "null")
  | reference (shape : n.shape = .reference name) (known : given name identifier) :
      Typed given taken depth n (.named identifier)
  | verbatim (shape : n.shape = .raw (some text) other) : Typed given taken depth n (.verbatim text.content)
  | imported (shape : n.shape = .imported name module) (known : taken module name) :
      Typed given taken depth n (.named name)
  | linked (shape : n.shape = .linked declaration other) (inner : Typed given taken depth declaration type) :
      Typed given taken depth n type

inductive Node.Bodied (given taken : String → String → Prop) : Node → DeclaredAs → Prop
  | interface (fields : List (Property Node × TypeExpr)) (shape : n.shape = .object ⟨fields.map (·.1), extra, parents⟩)
      (members : ∀ f ∈ fields, Node.Typed given taken 1 f.1.value f.2)
      (further : ∀ a ∈ extra.nodes, Node.Typed given taken 1 a rest) :
      Bodied given taken n (.interface (fields.map fun f => memberOf f.1 f.2) (extra.index rest))
  | enumeration (shape : n.shape = .enumeration values (some naming)) :
      Bodied given taken n (.enumeration (values.map fun value => (naming.symbol value, value)))
  | alias_ (unstructured : ∀ o, n.shape ≠ .object o) (unnamed : ∀ values naming, n.shape ≠ .enumeration values (some naming))
      (typed : Node.Typed given taken 0 n type) : Bodied given taken n (.alias_ type)

section
variable {given taken given' taken' : String → String → Prop}

theorem Node.Typed.mono (typed : Node.Typed given taken depth n type) (more : ∀ name id, given name id → given' name id)
    (further : ∀ module name, taken module name → taken' module name) : Node.Typed given' taken' depth n type := by
  induction typed with
  | object fields shape _ _ members rest => exact .object fields shape members rest
  | array shape _ ih => exact .array shape ih
  | union options shape _ ih => exact .union options shape ih
  | enumeration shape => exact .enumeration shape
  | constant shape => exact .constant shape
  | string shape => exact .string shape
  | number shape => exact .number shape
  | boolean shape => exact .boolean shape
  | null shape => exact .null shape
  | reference shape known => exact .reference shape (more _ _ known)
  | verbatim shape => exact .verbatim shape
  | imported shape known => exact .imported shape (further _ _ known)
  | linked shape _ ih => exact .linked shape ih

theorem Node.Bodied.mono (bodied : Node.Bodied given taken n body) (more : ∀ name id, given name id → given' name id)
    (further : ∀ module name, taken module name → taken' module name) : Node.Bodied given' taken' n body := by
  cases bodied with
  | interface fields shape members rest =>
    exact .interface fields shape (fun f member => (members f member).mono more further) fun a member =>
      (rest a member).mono more further
  | enumeration shape => exact .enumeration shape
  | alias_ unstructured unnamed typed => exact .alias_ unstructured unnamed (typed.mono more further)

end

theorem Node.Bodied.object {given taken : String → String → Prop} (bodied : Node.Bodied given taken n body)
    (shape : n.shape = .object o) : ∃ members index, body = .interface members index ∧
      members.map (fun m => (m.key, m.optional)) = o.properties.map (fun p => (p.name, p.value.isOptional)) ∧
      (index = none ↔ o.additional = .forbidden) := by
  cases bodied with
  | @interface rest n extra parents fields shape' =>
    cases shape.symm.trans shape'
    refine ⟨_, _, rfl, ?_, ?_⟩
    · rw [List.map_map, List.map_map]
      rfl
    · cases extra with
      | forbidden => exact iff_of_true rfl rfl
      | allowed | shape => exact iff_of_false nofun nofun
  | enumeration shape' => cases shape.symm.trans shape'
  | alias_ unstructured => exact absurd shape (unstructured o)

inductive TypeExpr.Prints (identifier : String) : TypeExpr → Prop
  | named : Prints identifier (.named identifier)
  | array (inner : Prints identifier item) : Prints identifier (.array item grouped)
  | alternatives (member : t ∈ options) (inner : Prints identifier t) : Prints identifier (.alternatives options)
  | member (inside : m ∈ members) (inner : Prints identifier m.type) : Prints identifier (.record members index)
  | index (inner : Prints identifier t) : Prints identifier (.record members (some t))

inductive DeclaredAs.Prints (identifier : String) : DeclaredAs → Prop
  | interface (inner : TypeExpr.Prints identifier (.record members index)) : Prints identifier (.interface members index)
  | alias_ (inner : TypeExpr.Prints identifier type) : Prints identifier (.alias_ type)

theorem TypeExpr.mem_of_distinctOptions {depth : Nat} {options : List TypeExpr}
    (member : t ∈ distinctOptions depth options) : t ∈ options := by
  have gathered : ∀ (options kept : List TypeExpr), t ∈ options.foldl (fun kept t =>
      bif kept.any (·.write depth == t.write depth) then kept else kept ++ [t]) kept → t ∈ kept ∨ t ∈ options := by
    intro options
    induction options with
    | nil => exact fun _ => .inl
    | cons first rest ih =>
      intro kept member
      rcases ih _ member with before | later
      · dsimp only at before
        cases known : kept.any (·.write depth == first.write depth) with
        | true =>
          rw [known] at before
          exact .inl before
        | false =>
          rw [known] at before
          rcases List.mem_append.1 before with before | here
          · exact .inl before
          · exact .inr (List.mem_singleton.1 here ▸ List.mem_cons_self)
      · exact .inr (List.mem_cons_of_mem _ later)
  exact (gathered options [] member).resolve_left List.not_mem_nil

section
variable {given taken : String → String → Prop} {identifier : String}

theorem prints_record {fields : List (Property Node × TypeExpr)} {additional : Additional Node} {P : Prop}
    (members : ∀ f ∈ fields, TypeExpr.Prints identifier f.2 → P)
    (further : ∀ a ∈ additional.nodes, TypeExpr.Prints identifier rest → P)
    (prints : TypeExpr.Prints identifier (.record (fields.map fun f => memberOf f.1 f.2) (additional.index rest))) : P := by
  generalize index : additional.index rest = other at prints
  cases prints with
  | member inside inner =>
    obtain ⟨f, member, rfl⟩ := List.mem_map.1 inside
    exact members f member inner
  | index inner =>
    cases additional with
    | forbidden => cases index
    | allowed =>
      cases index
      cases inner
    | shape n =>
      cases index
      exact further n List.mem_cons_self inner

-- No name stands in a type but those that were given for references and those that were taken.
theorem Node.Typed.prints {type : TypeExpr} (typed : Node.Typed given taken depth n type)
    (prints : type.Prints identifier) :
    (∃ name, given name identifier) ∨ ∃ module, taken module identifier := by
  induction typed with
  | object fields _ _ _ members further => exact prints_record members further prints
  | array _ _ ih =>
    cases prints with
    | array inner => exact ih inner
  | union options _ _ ih =>
    cases prints with
    | alternatives member inner =>
      obtain ⟨o, inside, rfl⟩ := List.mem_map.1 (TypeExpr.mem_of_distinctOptions member)
      exact ih o inside inner
  | enumeration _ =>
    cases prints with
    | alternatives member inner =>
      obtain ⟨value, _, rfl⟩ := List.mem_map.1 member
      cases inner
  | constant _ | string _ | number _ | boolean _ | null _ | verbatim _ => cases prints
  | reference _ known =>
    cases prints
    exact .inl ⟨_, known⟩
  | imported _ known =>
    cases prints
    exact .inr ⟨_, known⟩
  | linked _ _ ih => exact ih prints

theorem Node.Bodied.prints {body : DeclaredAs} (bodied : Node.Bodied given taken n body)
    (prints : body.Prints identifier) :
    (∃ name, given name identifier) ∨ ∃ module, taken module identifier := by
  cases bodied with
  | interface fields _ members further =>
    cases prints with
    | interface inner =>
      exact prints_record (fun f member => (members f member).prints) (fun a member => (further a member).prints) inner
  | enumeration _ => cases prints
  | alias_ _ _ typed =>
    cases prints with
    | alias_ inner => exact typed.prints inner

end
end TwinShape
