import Mathlib.Data.List.Perm.Subperm
import TwinShape.Proofs.Node.Equality
import TwinShape.Proofs.Projection.Simulation

namespace TwinShape

theorem sameOption_iff {eq : α → α → Bool} {a b : Option α} :
    sameOption eq a b = true ↔ Option.Rel (fun x y => eq x y = true) a b := by
  cases a <;> cases b <;> simp [sameOption]

theorem sameList_iff {eq : α → α → Bool} {as bs : List α} :
    sameList eq as bs = true ↔ List.Forall₂ (fun x y => eq x y = true) as bs := by
  induction as generalizing bs with
  | nil => cases bs <;> simp [sameList]
  | cons a as ih => cases bs <;> simp [sameList, ih]

-- Relations between lists, and between options, are turned around and put together entry by entry.
section
variable {R S T : α → α → Prop}

theorem forall₂_turn {as bs : List α} (both : List.Forall₂ R as bs) (each : ∀ a ∈ as, ∀ b ∈ bs, R a b → S b a) :
    List.Forall₂ S bs as := by
  induction both with
  | nil => exact .nil
  | cons head _ ih =>
    refine .cons (each _ List.mem_cons_self _ List.mem_cons_self head) (ih fun a inside b inside' => ?_)
    exact each a (List.mem_cons_of_mem _ inside) b (List.mem_cons_of_mem _ inside')

theorem forall₂_chain {as bs cs : List α} (first : List.Forall₂ R as bs) (second : List.Forall₂ S bs cs)
    (each : ∀ a ∈ as, ∀ b c, R a b → S b c → T a c) : List.Forall₂ T as cs := by
  induction first generalizing cs with
  | nil =>
    cases second
    exact .nil
  | cons head _ ih =>
    cases second with
    | cons head' second =>
      exact .cons (each _ List.mem_cons_self _ _ head head') (ih second fun a inside => each a (List.mem_cons_of_mem _ inside))

theorem rel_turn {a b : Option α} (both : Option.Rel R a b) (each : ∀ x ∈ a, ∀ y ∈ b, R x y → S y x) :
    Option.Rel S b a := by
  cases both with
  | none => exact .none
  | some head => exact .some (each _ rfl _ rfl head)

theorem rel_chain {a b c : Option α} (first : Option.Rel R a b) (second : Option.Rel S b c)
    (each : ∀ x ∈ a, ∀ y z, R x y → S y z → T x z) : Option.Rel T a c := by
  cases first with
  | none =>
    cases second
    exact .none
  | some head =>
    cases second with
    | some head' => exact .some (each _ rfl _ _ head head')

end

namespace Json

theorem sameItems_iff {xs ys : List Json} :
    sameItems xs ys = true ↔ List.Forall₂ (fun x y => x.same y = true) xs ys := by
  induction xs generalizing ys with
  | nil => cases ys <;> simp [sameItems]
  | cons x xs ih => cases ys <;> simp [sameItems, ih]

theorem sameFields_iff {xs ys : List (String × Json)} :
    sameFields xs ys = true ↔ ∀ f ∈ xs, ∃ y, Table.get? ys f.1 = some y ∧ f.2.same y = true := by
  induction xs with
  | nil => simp [sameFields]
  | cons f rest ih =>
    obtain ⟨key, x⟩ := f
    rw [sameFields, Bool.and_eq_true, ih, List.forall_mem_cons]
    refine and_congr_left fun _ => ?_
    cases Table.get? ys key <;> simp

theorem keys_turn {xs ys : List (String × Json)} (distinct : (Table.keys xs).Nodup) (length : xs.length = ys.length)
    (found : ∀ f ∈ xs, ∃ y, Table.get? ys f.1 = some y) : ∀ key ∈ Table.keys ys, key ∈ Table.keys xs := by
  have within : Table.keys xs ⊆ Table.keys ys := by
    intro key member
    obtain ⟨f, inside, rfl⟩ := List.mem_map.1 member
    exact Table.mem_keys_iff.2 (found f inside)
  have long : (Table.keys ys).length ≤ (Table.keys xs).length := by
    rw [Table.keys, Table.keys, List.length_map, List.length_map]
    exact Nat.le_of_eq length.symm
  have same := (List.subperm_of_subset distinct within).perm_of_length_le long
  exact fun key member => same.mem_iff.2 member

theorem Settled.same_symm {a : Json} (settled : a.Settled) :
    ∀ {b : Json}, b.Settled → a.same b = true → b.same a = true := by
  induction settled with
  | null => intro b _ same; cases b <;> first | rfl | cases same
  | bool x =>
    intro b _ same
    cases b <;> first | cases same | exact BEq.symm same
  | number x =>
    intro b _ same
    cases b with
    | number y =>
      cases x <;> cases y <;> first | cases same | exact BEq.symm same
    | _ => cases same
  | string x =>
    intro b _ same
    cases b <;> first | cases same | exact BEq.symm same
  | array _ ih =>
    intro b settled' same
    cases settled' with
    | array each' =>
      exact sameItems_iff.2 (forall₂_turn (sameItems_iff.1 same) fun x inside y inside' => ih x inside (each' y inside'))
    | _ => cases same
  | @object xs distinct _ ih =>
    intro b settled' same
    cases settled' with
    | @object ys distinct' each' =>
      rw [Json.same, Bool.and_eq_true, beq_iff_eq, sameFields_iff] at same ⊢
      refine ⟨same.1.symm, fun g inside' => ?_⟩
      have known := keys_turn distinct same.1 (fun f inside => (same.2 f inside).imp fun _ => And.left) g.1
        (List.mem_map_of_mem inside')
      obtain ⟨⟨key, x⟩, inside, rfl⟩ := List.mem_map.1 known
      obtain ⟨y, found, same⟩ := same.2 _ inside
      have here : y = g.2 := Option.some.inj (found.symm.trans (Table.get?_of_mem distinct' inside'))
      exact ⟨x, Table.get?_of_mem distinct inside, ih _ inside (each' g inside') (here ▸ same)⟩
    | _ => cases same

theorem Settled.same_trans {a : Json} (settled : a.Settled) :
    ∀ {b c : Json}, a.same b = true → b.same c = true → a.same c = true := by
  induction settled with
  | null => intro b c first second; cases b <;> first | exact second | cases first
  | bool x =>
    intro b c first second
    cases b <;> first | cases first | exact beq_iff_eq.1 first ▸ second
  | number x =>
    intro b c first second
    cases b with
    | number y =>
      cases c with
      | number z =>
        cases x <;> cases y <;> first
          | cases first
          | (cases z <;> first | cases second | exact BEq.trans first second)
      | _ => cases second
    | _ => cases first
  | string x =>
    intro b c first second
    cases b <;> first | cases first | exact beq_iff_eq.1 first ▸ second
  | array _ ih =>
    intro b c first second
    cases b with
    | array ys =>
      cases c with
      | array zs =>
        exact sameItems_iff.2 (forall₂_chain (sameItems_iff.1 first) (sameItems_iff.1 second) fun x inside _ _ => ih x inside)
      | _ => cases second
    | _ => cases first
  | object _ _ ih =>
    intro b c first second
    cases b with
    | object ys =>
      cases c with
      | object zs =>
        rw [Json.same, Bool.and_eq_true, beq_iff_eq, sameFields_iff] at first second ⊢
        refine ⟨first.1.trans second.1, fun f inside => ?_⟩
        obtain ⟨y, found, same⟩ := first.2 f inside
        obtain ⟨z, found', same'⟩ := second.2 _ (Table.mem_of_get? found)
        exact ⟨z, found', ih f inside same same'⟩
      | _ => cases second
    | _ => cases first

end Json

theorem Literal.same_symm {a b : Literal} (same : a.same b = true) : b.same a = true := by
  cases a <;> cases b <;> first | rfl | cases same | exact BEq.symm same

theorem Literal.same_trans {a b c : Literal} (first : a.same b = true) (second : b.same c = true) :
    a.same c = true := by
  cases a <;> cases b <;> first
    | exact second
    | cases first
    | (cases c <;> first | cases second | exact BEq.trans first second)

theorem sameNodes_iff {as bs : List Node} :
    sameNodes as bs = true ↔ List.Forall₂ (fun a b => a.same b = true) as bs := by
  induction as generalizing bs with
  | nil => cases bs <;> simp [sameNodes]
  | cons a as ih => cases bs <;> simp [sameNodes, ih]

def Property.Matches (R : Node → Node → Prop) (p q : Property Node) : Prop :=
  p.name = q.name ∧ R p.value q.value ∧ p.restriction = q.restriction

theorem sameProperties_iff {ps qs : List (Property Node)} :
    sameProperties ps qs = true ↔ List.Forall₂ (Property.Matches fun a b => a.same b = true) ps qs := by
  induction ps generalizing qs with
  | nil => cases qs <;> simp [sameProperties]
  | cons p ps ih =>
    obtain ⟨name, value, restriction⟩ := p
    cases qs <;> simp [sameProperties, ih, Property.Matches, and_assoc]

theorem sameAdditional_iff {a b : Additional Node} :
    sameAdditional a b = true ↔ Additional.Both (fun m n => m.same n = true) a b := by
  constructor
  · intro same
    cases a <;> cases b <;> first
      | exact .forbidden
      | exact .allowed
      | exact .shape (by rwa [sameAdditional] at same)
      | simp [sameAdditional] at same
  · intro both
    cases both <;> rw [sameAdditional]
    assumption

def Shape.isSimple : Shape Node → Bool
  | .string | .number | .integer | .boolean | .null | .reference _ | .imported .. => true
  | _ => false

theorem Shape.children_simple {s : Shape Node} (simple : s.isSimple) : s.children = [] := by
  cases s <;> first | exact absurd simple Bool.false_ne_true | rfl

inductive Shape.Matches (R : Node → Node → Prop) : Shape Node → Shape Node → Prop
  | object (properties : List.Forall₂ (Property.Matches R) ps qs) (additional : Additional.Both R a b)
      (parents : List.Forall₂ R ms ns) : Matches R (.object ⟨ps, a, ms⟩) (.object ⟨qs, b, ns⟩)
  | array (item : R m n) : Matches R (.array m) (.array n)
  | union (members : List.Forall₂ R ms ns) : Matches R (.union ms) (.union ns)
  | linked (declaration : R m n) (schema : R m' n') : Matches R (.linked m m') (.linked n n')
  | enumeration (values : List.Forall₂ (fun a b => Literal.same a b = true) as bs)
      (naming : Option.Rel (fun f g => Naming.same f g = true) f g) : Matches R (.enumeration as f) (.enumeration bs g)
  | constant (value : Literal.same a b = true) : Matches R (.constant a) (.constant b)
  | raw (declaration : Option.Rel (fun d e => Marked.same d e = true) d e)
      (schema : Option.Rel (fun s t => Marked.same s t = true) s t) : Matches R (.raw d s) (.raw e t)
  | self (simple : s.isSimple) : Matches R s s

theorem Shape.matches_of_same {s t : Shape Node} (same : sameShape s t = true) :
    s.Matches (fun a b => a.same b = true) t := by
  cases s with
  | object o =>
    cases t with
    | object o' =>
      obtain ⟨properties, additional, parents⟩ := o
      obtain ⟨properties', additional', parents'⟩ := o'
      rw [sameShape, Bool.and_eq_true, Bool.and_eq_true] at same
      exact .object (sameProperties_iff.1 same.1.1) (sameAdditional_iff.1 same.1.2) (sameNodes_iff.1 same.2)
    | _ => simp [sameShape] at same
  | array item =>
    cases t with
    | array item' => exact .array (by rwa [sameShape] at same)
    | _ => simp [sameShape] at same
  | union members =>
    cases t with
    | union members' => exact .union (sameNodes_iff.1 (by rwa [sameShape] at same))
    | _ => simp [sameShape] at same
  | linked declaration schema =>
    cases t with
    | linked declaration' schema' =>
      rw [sameShape, Bool.and_eq_true] at same
      exact .linked same.1 same.2
    | _ => simp [sameShape] at same
  | enumeration values naming =>
    cases t with
    | enumeration values' naming' =>
      rw [sameShape, Bool.and_eq_true] at same
      exact .enumeration (sameList_iff.1 same.1) (sameOption_iff.1 same.2)
    | _ => simp [sameShape] at same
  | constant value =>
    cases t with
    | constant value' => exact .constant (by rwa [sameShape] at same)
    | _ => simp [sameShape] at same
  | raw declaration schema =>
    cases t with
    | raw declaration' schema' =>
      rw [sameShape, Bool.and_eq_true] at same
      exact .raw (sameOption_iff.1 same.1) (sameOption_iff.1 same.2)
    | _ => simp [sameShape] at same
  | reference name =>
    cases t with
    | reference name' =>
      rw [sameShape, beq_iff_eq] at same
      exact same ▸ .self rfl
    | _ => simp [sameShape] at same
  | imported name module =>
    cases t with
    | imported name' module' =>
      rw [sameShape, Bool.and_eq_true, beq_iff_eq, beq_iff_eq] at same
      exact same.1 ▸ same.2 ▸ .self rfl
    | _ => simp [sameShape] at same
  | _ => cases t <;> first | exact .self rfl | simp [sameShape] at same

theorem Shape.Matches.same {s t : Shape Node} (both : s.Matches (fun a b => a.same b = true) t) :
    sameShape s t = true := by
  cases both with
  | object properties additional parents =>
    rw [sameShape, sameProperties_iff.2 properties, sameAdditional_iff.2 additional, sameNodes_iff.2 parents]
    rfl
  | array item => rwa [sameShape]
  | union members => rwa [sameShape, sameNodes_iff]
  | linked declaration schema =>
    rw [sameShape, declaration, schema]
    rfl
  | enumeration values naming =>
    rw [sameShape, sameList_iff.2 values, sameOption_iff.2 naming]
    rfl
  | constant value => rwa [sameShape]
  | raw declaration schema =>
    rw [sameShape, sameOption_iff.2 declaration, sameOption_iff.2 schema]
    rfl
  | self simple => exact sameShape_self (Shape.children_simple simple ▸ List.forall_mem_nil _)

theorem Additional.Both.turn {R S : Node → Node → Prop} {a b : Additional Node} (both : Additional.Both R a b)
    (each : ∀ m ∈ a.nodes, ∀ n ∈ b.nodes, R m n → S n m) : Additional.Both S b a := by
  cases both with
  | forbidden => exact .forbidden
  | allowed => exact .allowed
  | shape nodes => exact .shape (each _ List.mem_cons_self _ List.mem_cons_self nodes)

theorem Additional.Both.chain {R S T : Node → Node → Prop} {a b c : Additional Node} (first : Additional.Both R a b)
    (second : Additional.Both S b c) (each : ∀ m ∈ a.nodes, ∀ n k, R m n → S n k → T m k) : Additional.Both T a c := by
  cases first with
  | forbidden => cases second; exact .forbidden
  | allowed => cases second; exact .allowed
  | shape nodes =>
    cases second with
    | shape nodes' => exact .shape (each _ List.mem_cons_self _ _ nodes nodes')

namespace Shape.Matches
variable {R S T : Node → Node → Prop} {s t u : Shape Node}

theorem turn (both : s.Matches R t) (each : ∀ m ∈ s.children, ∀ n ∈ t.children, R m n → S n m) : t.Matches S s := by
  cases both with
  | object properties additional parents =>
    have own := fun m inside n inside' => each m (List.mem_append_left _ inside) n (List.mem_append_left _ inside')
    refine .object (forall₂_turn properties fun p inside q inside' both => ⟨both.1.symm, ?_, both.2.2.symm⟩)
      (additional.turn fun m inside n inside' => own m (List.mem_append_right _ inside) n (List.mem_append_right _ inside'))
      (forall₂_turn parents fun m inside n inside' => each m (List.mem_append_right _ inside) n (List.mem_append_right _ inside'))
    exact own _ (List.mem_append_left _ (List.mem_map_of_mem inside)) _ (List.mem_append_left _ (List.mem_map_of_mem inside')) both.2.1
  | array item => exact .array (each _ List.mem_cons_self _ List.mem_cons_self item)
  | union members => exact .union (forall₂_turn members each)
  | linked declaration schema =>
    exact .linked (each _ List.mem_cons_self _ List.mem_cons_self declaration)
      (each _ (List.mem_cons_of_mem _ List.mem_cons_self) _ (List.mem_cons_of_mem _ List.mem_cons_self) schema)
  | enumeration values naming =>
    exact .enumeration (forall₂_turn values fun _ _ _ _ => Literal.same_symm)
      (rel_turn naming fun _ _ _ _ same => BEq.symm same)
  | constant value => exact .constant (Literal.same_symm value)
  | raw declaration schema =>
    exact .raw (rel_turn declaration fun _ _ _ _ same => BEq.symm same)
      (rel_turn schema fun _ _ _ _ same => BEq.symm same)
  | self simple => exact .self simple

theorem chain (first : s.Matches R t) (second : t.Matches S u) (each : ∀ m ∈ s.children, ∀ n k, R m n → S n k → T m k) :
    s.Matches T u := by
  cases first with
  | object properties additional parents =>
    have own := fun m inside => each m (List.mem_append_left _ inside)
    cases second with
    | object properties' additional' parents' =>
      refine .object (forall₂_chain properties properties' fun p inside q o here there => ⟨here.1.trans there.1, ?_, here.2.2.trans there.2.2⟩)
        (additional.chain additional' fun m inside => own m (List.mem_append_right _ inside))
        (forall₂_chain parents parents' fun m inside => each m (List.mem_append_right _ inside))
      exact own _ (List.mem_append_left _ (List.mem_map_of_mem inside)) _ _ here.2.1 there.2.1
    | self simple => cases simple
  | array item =>
    cases second with
    | array item' => exact .array (each _ List.mem_cons_self _ _ item item')
    | self simple => cases simple
  | union members =>
    cases second with
    | union members' => exact .union (forall₂_chain members members' each)
    | self simple => cases simple
  | linked declaration schema =>
    cases second with
    | linked declaration' schema' =>
      exact .linked (each _ List.mem_cons_self _ _ declaration declaration')
        (each _ (List.mem_cons_of_mem _ List.mem_cons_self) _ _ schema schema')
    | self simple => cases simple
  | enumeration values naming =>
    cases second with
    | enumeration values' naming' =>
      exact .enumeration (forall₂_chain values values' fun _ _ _ _ => Literal.same_trans)
        (rel_chain naming naming' fun _ _ _ _ => BEq.trans)
    | self simple => cases simple
  | constant value =>
    cases second with
    | constant value' => exact .constant (Literal.same_trans value value')
    | self simple => cases simple
  | raw declaration schema =>
    cases second with
    | raw declaration' schema' =>
      exact .raw (rel_chain declaration declaration' fun _ _ _ _ => BEq.trans)
        (rel_chain schema schema' fun _ _ _ _ => BEq.trans)
    | self simple => cases simple
  | self simple =>
    cases second with
    | self _ => exact .self simple
    | _ => cases simple

end Shape.Matches

namespace Annotations
variable {a b c : Annotations}

theorem same_symm (settled : ∀ j ∈ a.examples, j.Settled) (settled' : ∀ j ∈ b.examples, j.Settled)
    (same : a.same b = true) : b.same a = true := by
  simp only [Annotations.same, Bool.and_eq_true, sameList_iff] at same ⊢
  obtain ⟨⟨⟨⟨⟨title, description⟩, examples⟩, deprecated⟩, comment⟩, pattern⟩ := same
  refine ⟨⟨⟨⟨⟨BEq.symm title, BEq.symm description⟩, ?_⟩, BEq.symm deprecated⟩, BEq.symm comment⟩, BEq.symm pattern⟩
  exact forall₂_turn examples fun x inside y inside' => (settled x inside).same_symm (settled' y inside')

theorem same_trans (settled : ∀ j ∈ a.examples, j.Settled) (first : a.same b = true) (second : b.same c = true) :
    a.same c = true := by
  simp only [Annotations.same, Bool.and_eq_true, sameList_iff] at first second ⊢
  obtain ⟨⟨⟨⟨⟨title, description⟩, examples⟩, deprecated⟩, comment⟩, pattern⟩ := first
  obtain ⟨⟨⟨⟨⟨title', description'⟩, examples'⟩, deprecated'⟩, comment'⟩, pattern'⟩ := second
  refine ⟨⟨⟨⟨⟨BEq.trans title title', BEq.trans description description'⟩, ?_⟩, BEq.trans deprecated deprecated'⟩,
    BEq.trans comment comment'⟩, BEq.trans pattern pattern'⟩
  exact forall₂_chain examples examples' fun x inside _ _ => (settled x inside).same_trans

end Annotations

namespace Node
variable {a b c : Node}

theorem optionality_symm (settled : a.Settled) (settled' : b.Settled) (same : a.optionality.same b.optionality = true) :
    b.optionality.same a.optionality = true := by
  have first := settled.2
  have second := settled'.2
  unfold default? at first second
  revert first second same
  cases a.optionality <;> cases b.optionality <;> intro same first second <;> first | rfl | cases same | skip
  exact sameOption_iff.2 (rel_turn (sameOption_iff.1 same) fun x inside y inside' => (first x inside).same_symm (second y inside'))

theorem optionality_trans (settled : a.Settled) (first : a.optionality.same b.optionality = true)
    (second : b.optionality.same c.optionality = true) : a.optionality.same c.optionality = true := by
  have settled := settled.2
  unfold default? at settled
  revert settled first second
  cases a.optionality <;> cases b.optionality <;> cases c.optionality <;> intro first second settled <;>
    first | rfl | exact absurd first Bool.false_ne_true | exact absurd second Bool.false_ne_true | skip
  exact sameOption_iff.2 (rel_chain (sameOption_iff.1 first) (sameOption_iff.1 second) fun x inside _ _ => (settled x inside).same_trans)

theorem same_iff : a.same b = true ↔ (sameShape a.shape b.shape = true ∧ a.annotations.same b.annotations = true) ∧
    a.optionality.same b.optionality = true ∧ a.restriction = b.restriction := by
  obtain ⟨shape, annotations, optionality, restriction, misuse⟩ := a
  simp only [Node.same, Bool.and_eq_true, beq_iff_eq, and_assoc]

theorem same_symm (settled : a.Each Node.Settled) :
    ∀ {b : Node}, b.Each Node.Settled → a.same b = true → b.same a = true := by
  induction a using Node.tree_induction with
  | node a ih =>
    intro b settled' same
    have ⟨here, below⟩ := Node.each_iff.1 settled
    have ⟨here', below'⟩ := Node.each_iff.1 settled'
    obtain ⟨⟨shape, annotations⟩, optionality, restriction⟩ := same_iff.1 same
    have turned := (Shape.matches_of_same shape).turn fun m inside n inside' =>
      ih m inside (below m inside) (below' n inside')
    exact same_iff.2 ⟨⟨turned.same, Annotations.same_symm here.1 here'.1 annotations⟩, optionality_symm here here' optionality, restriction.symm⟩

theorem same_trans (settled : a.Each Node.Settled) :
    ∀ {b c : Node}, a.same b = true → b.same c = true → a.same c = true := by
  induction a using Node.tree_induction with
  | node a ih =>
    intro b c first second
    have ⟨here, below⟩ := Node.each_iff.1 settled
    obtain ⟨⟨shape, annotations⟩, optionality, restriction⟩ := same_iff.1 first
    obtain ⟨⟨shape', annotations'⟩, optionality', restriction'⟩ := same_iff.1 second
    have chained := (Shape.matches_of_same shape).chain (Shape.matches_of_same shape') fun m inside _ _ =>
      ih m inside (below m inside)
    exact same_iff.2 ⟨⟨chained.same, Annotations.same_trans here.1 annotations annotations'⟩,
      optionality_trans here optionality optionality', restriction.trans restriction'⟩

end Node

def Property.Settled (p : Property Node) : Prop := p.value.Each Node.Settled

namespace Property
variable {p q o : Property Node}

theorem same_iff : p.same q = true ↔ p.Matches (fun a b => a.same b = true) q := by
  unfold Property.same
  rw [sameProperties_iff, List.forall₂_cons, and_iff_left .nil]

theorem same_self (settled : p.Settled) : p.same p = true :=
  same_iff.2 ⟨rfl, Node.same_of_settled settled, rfl⟩

theorem same_symm (settled : p.Settled) (settled' : q.Settled) (same : p.same q = true) : q.same p = true := by
  obtain ⟨name, value, restriction⟩ := same_iff.1 same
  exact same_iff.2 ⟨name.symm, Node.same_symm settled settled' value, restriction.symm⟩

theorem same_trans (settled : p.Settled) (first : p.same q = true) (second : q.same o = true) : p.same o = true := by
  obtain ⟨name, value, restriction⟩ := same_iff.1 first
  obtain ⟨name', value', restriction'⟩ := same_iff.1 second
  exact same_iff.2 ⟨name.trans name', Node.same_trans settled value value', restriction.trans restriction'⟩

end Property
end TwinShape
