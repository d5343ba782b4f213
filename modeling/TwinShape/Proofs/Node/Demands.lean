import Mathlib.Data.List.Nodup
import TwinShape.Proofs.Node.Admission

namespace TwinShape

inductive Shape.Extendable : Shape Node → Prop
  | object : Extendable (.object o)
  | reference : Extendable (.reference name)

inductive Literal.Listable : Literal → Prop
  | int : Listable (.int i)
  | float : Listable (.float x)
  | string : Listable (.string s)

def Shape.Orderly : Shape Node → Prop
  | .object o => (o.properties.map (·.name)).Nodup ∧ ∀ p ∈ o.parents, p.shape.Extendable
  | .enumeration values _ => ∀ l ∈ values, l.Listable
  | _ => True

structure Node.LocallySound (engine : PatternEngine) (n : Node) : Prop where
  unmisused : n.misuse = []
  readable : ∀ text, n.annotations.pattern = some text → ∃ finds, engine text = .ok finds
  fitting : ∀ v, n.default? = some v → n.Admits engine v
  orderly : n.shape.Orderly

-- What is demanded of a definition, one thing after the other.
inductive Demand where
  | unmisused (n : Node)
  | readable (n : Node)
  | fitting (n : Node)
  -- The name of a property, and those of the properties before it.
  | fresh (earlier : List String) (name : String)
  | extendable (parent : Node)
  | listable (values : List Literal)

namespace Demand

section
variable (engine : PatternEngine)

def Met : Demand → Prop
  | unmisused n => n.misuse = []
  | readable n => ∀ text, n.annotations.pattern = some text → ∃ finds, engine text = .ok finds
  | fitting n => ∀ v, n.default? = some v → n.Admits engine v
  | fresh earlier name => name ∉ earlier
  | extendable parent => parent.shape.Extendable
  | listable values => ∀ l ∈ values, l.Listable

inductive Breach (place : Place) : Demand → Finding → Prop
  | misuse {n : Node} (recorded : n.misuse = m :: rest) : Breach place (unmisused n) ⟨place, .misuse m⟩
  | pattern {n : Node} (set : n.annotations.pattern = some text) (unreadable : engine text = .error why) :
      Breach place (readable n) ⟨place.child "pattern", .invalidPattern why⟩
  | mismatch {n : Node} (shape : n.shape = .string) (default : n.default? = some (.string s))
      (set : n.annotations.pattern = some text) (read : engine text = .ok finds) (apart : finds s = false) :
      Breach place (fitting n) ⟨place.child "default", .patternMismatch s text⟩
  | default {n : Node} (default : n.default? = some v) (unfit : ¬n.Admits engine v) (kind : n.shape = .string → ∀ s, v ≠ .string s) :
      Breach place (fitting n) ⟨place.child "default", .invalidDefault v n.kindName⟩
  | repeated (taken : name ∈ earlier) : Breach place (fresh earlier name) ⟨place.child "properties", .duplicateProperty name⟩
  | parent {n : Node} (other : ¬n.shape.Extendable) : Breach place (extendable n) ⟨place, .parent n.kindName⟩
  | member (split : values = before ++ l :: after) (first : ∀ k ∈ before, k.Listable) (other : ¬l.Listable) :
      Breach place (listable values) ⟨place.child "enum", .member l.typeName⟩

end

end Demand

mutual
def Node.demands (place : Place) : Node → List (Place × Demand)
  | ⟨shape, annotations, optionality, restriction, misuse⟩ =>
    (place, .unmisused ⟨shape, annotations, optionality, restriction, misuse⟩) ::
      (place, .readable ⟨shape, annotations, optionality, restriction, misuse⟩) ::
      (place, .fitting ⟨shape, annotations, optionality, restriction, misuse⟩) :: shapeDemands place shape

def shapeDemands (place : Place) : Shape Node → List (Place × Demand)
  | .object ⟨properties, additional, parents⟩ =>
    propertiesDemands place [] properties ++ (additionalDemands place additional ++ parentsDemands place 0 parents)
  | .array item => item.demands (place.child "items")
  | .union members => membersDemands place 0 members
  | .enumeration values _ => [(place, .listable values)]
  | .linked declaration schema => declaration.demands (place.child "declaration") ++ schema.demands (place.child "schema")
  | .constant _ | .string | .number | .integer | .boolean | .null | .reference _ | .raw .. | .imported .. => []

def propertiesDemands (place : Place) (earlier : List String) : List (Property Node) → List (Place × Demand)
  | [] => []
  | ⟨name, value, _⟩ :: rest =>
    (place, .fresh earlier name) :: (value.demands (place.property name) ++ propertiesDemands place (name :: earlier) rest)

def additionalDemands (place : Place) : Additional Node → List (Place × Demand)
  | .forbidden | .allowed => []
  | .shape n => n.demands (place.child "additionalProperties")

def parentsDemands (place : Place) (i : Nat) : List Node → List (Place × Demand)
  | [] => []
  | n :: rest =>
    (place.item "extends" i, .extendable n) :: (n.demands (place.item "extends" i) ++ parentsDemands place (i + 1) rest)

def membersDemands (place : Place) (i : Nat) : List Node → List (Place × Demand)
  | [] => []
  | n :: rest => n.demands (place.item "anyOf" i) ++ membersDemands place (i + 1) rest
end

-- What is found first when everything is checked in order.
def Node.FirstBreach (engine : PatternEngine) (n : Node) (finding : Finding) : Prop :=
  ∃ before place d after, n.demands .root = before ++ (place, d) :: after ∧ (∀ e ∈ before, e.2.Met engine) ∧
    d.Breach engine place finding

theorem Node.demands_eq (n : Node) (place : Place) :
    n.demands place = (place, .unmisused n) :: (place, .readable n) :: (place, .fitting n) :: shapeDemands place n.shape := by
  obtain ⟨shape, annotations, optionality, restriction, misuse⟩ := n
  rw [Node.demands]

theorem Shape.extendable_iff (s : Shape Node) : s.Extendable ↔ canBeParent s = true := by
  cases s with
  | object | reference => exact iff_of_true (by constructor) rfl
  | _ => exact iff_of_false nofun Bool.false_ne_true

theorem Literal.listable_iff (l : Literal) : l.Listable ↔ l.isEnumMember = true := by
  cases l with
  | int | float | string => exact iff_of_true (by constructor) rfl
  | _ => exact iff_of_false nofun Bool.false_ne_true

variable {engine : PatternEngine}

namespace Demand

def finding? (engine : PatternEngine) (place : Place) : Demand → Option Finding
  | unmisused n => n.misuse.head?.map fun m => ⟨place, .misuse m⟩
  | readable n => (n.annotations.patternFlaw? engine).map fun flaw => ⟨place.child "pattern", flaw⟩
  | fitting n => n.default?.bind fun v => (n.defaultFlaw? engine v).map fun flaw => ⟨place.child "default", flaw⟩
  | fresh earlier name => if name ∈ earlier then some ⟨place.child "properties", .duplicateProperty name⟩ else none
  | extendable parent => bif canBeParent parent.shape then none else some ⟨place, .parent parent.kindName⟩
  | listable values => (values.find? (!·.isEnumMember)).map fun l => ⟨place.child "enum", .member l.typeName⟩

theorem finding?_none (place : Place) (d : Demand) : d.finding? engine place = none ↔ d.Met engine := by
  cases d with
  | unmisused n =>
    rw [finding?, Option.map_eq_none_iff, List.head?_eq_none_iff]
    rfl
  | readable n =>
    rw [finding?, Met, Option.map_eq_none_iff, Annotations.patternFlaw?]
    cases n.annotations.pattern with
    | none => simp
    | some text => cases read : engine text <;> simp [read]
  | fitting n =>
    simp only [finding?, Met, Option.bind_eq_none_iff, Option.map_eq_none_iff, Node.admits_iff]
  | fresh earlier name => simp [finding?, Met]
  | extendable parent =>
    rw [finding?, Met, Shape.extendable_iff]
    cases canBeParent parent.shape <;> simp
  | listable values =>
    rw [finding?, Met, Option.map_eq_none_iff, List.find?_eq_none]
    refine forall₂_congr fun l _ => ?_
    rw [Literal.listable_iff]
    simp

theorem breach_of_finding? {place : Place} {d : Demand} {finding : Finding}
    (found : d.finding? engine place = some finding) :
    d.Breach engine place finding := by
  cases d with
  | unmisused n =>
    obtain ⟨m, first, rfl⟩ := Option.map_eq_some_iff.1 found
    obtain ⟨rest, recorded⟩ := List.head?_eq_some_iff.1 first
    exact .misuse recorded
  | readable n =>
    obtain ⟨flaw, told, rfl⟩ := Option.map_eq_some_iff.1 found
    unfold Annotations.patternFlaw? at told
    cases set : n.annotations.pattern with
    | none => simp [set] at told
    | some text =>
      cases read : engine text with
      | ok finds => simp [set, read] at told
      | error why =>
        simp only [set, read] at told
        cases told
        exact .pattern set read
  | fitting n =>
    obtain ⟨v, default, found⟩ := Option.bind_eq_some_iff.1 found
    obtain ⟨flaw, told, rfl⟩ := Option.map_eq_some_iff.1 found
    rcases (defaultFlaw?_some v n flaw).1 told with ⟨s, text, finds, string, rfl, set, read, apart, rfl⟩ | ⟨kind, unfit, rfl⟩
    · exact .mismatch string default set read apart
    · exact .default default unfit kind
  | fresh earlier name =>
    rw [finding?] at found
    split at found
    · cases found
      exact .repeated ‹_›
    · cases found
  | extendable parent =>
    rw [finding?] at found
    cases fit : canBeParent parent.shape with
    | true => simp [fit] at found
    | false =>
      rw [fit, cond_false] at found
      cases found
      exact .parent fun extendable => nomatch fit.symm.trans (parent.shape.extendable_iff.1 extendable)
  | listable values =>
    obtain ⟨l, first, rfl⟩ := Option.map_eq_some_iff.1 found
    obtain ⟨unfit, before, after, split, fit⟩ := List.find?_eq_some_iff_append.1 first
    refine .member split (fun k member => k.listable_iff.2 ?_) fun listable => ?_
    · simpa using fit k member
    · simp [l.listable_iff.1 listable] at unfit

theorem finding?_of_breach {place : Place} {d : Demand} {finding : Finding} (breach : d.Breach engine place finding) :
    d.finding? engine place = some finding := by
  cases breach with
  | misuse recorded =>
    rw [finding?, recorded]
    rfl
  | pattern set unreadable =>
    rw [finding?, Annotations.patternFlaw?, set]
    dsimp only
    rw [unreadable]
    rfl
  | mismatch shape default set read apart =>
    rw [finding?, default, Option.bind_some, (defaultFlaw?_some _ _ _).2 (.inl ⟨_, _, _, shape, rfl, set, read, apart, rfl⟩)]
    rfl
  | default default unfit kind =>
    rw [finding?, default, Option.bind_some, (defaultFlaw?_some _ _ _).2 (.inr ⟨kind, unfit, rfl⟩)]
    rfl
  | repeated taken => exact if_pos taken
  | @parent n other =>
    have unfit : canBeParent n.shape = false := Bool.eq_false_iff.2 fun fit => other (n.shape.extendable_iff.2 fit)
    rw [finding?, unfit]
    rfl
  | @member values before l after split first other =>
    have unfit : (!l.isEnumMember) = true := by
      rw [Bool.eq_false_iff.2 fun fit => other (l.listable_iff.2 fit)]
      rfl
    have found : values.find? (!·.isEnumMember) = some l := by
      refine List.find?_eq_some_iff_append.2 ⟨unfit, before, after, split, fun k member => ?_⟩
      rw [k.listable_iff.1 (first k member)]
      rfl
    rw [finding?, found]
    rfl

end Demand

def firstFinding? (engine : PatternEngine) (demands : List (Place × Demand)) : Option Finding :=
  demands.findSome? fun e => e.2.finding? engine e.1

theorem firstFinding?_cons (e : Place × Demand) (rest : List (Place × Demand)) :
    firstFinding? engine (e :: rest) = (e.2.finding? engine e.1).or (firstFinding? engine rest) := by
  unfold firstFinding?
  rw [List.findSome?_cons]
  cases e.2.finding? engine e.1 <;> rfl

theorem firstFinding?_append (before after : List (Place × Demand)) :
    firstFinding? engine (before ++ after) = (firstFinding? engine before).or (firstFinding? engine after) := List.findSome?_append

theorem firstFinding?_none (demands : List (Place × Demand)) :
    firstFinding? engine demands = none ↔ ∀ e ∈ demands, e.2.Met engine :=
  List.findSome?_eq_none_iff.trans (forall₂_congr fun e _ => Demand.finding?_none e.1 e.2)

theorem firstFinding?_some (demands : List (Place × Demand)) (finding : Finding) :
    firstFinding? engine demands = some finding ↔
      ∃ before place d after, demands = before ++ (place, d) :: after ∧ (∀ e ∈ before, e.2.Met engine) ∧ d.Breach engine place finding := by
  unfold firstFinding?
  rw [List.findSome?_eq_some_iff]
  constructor
  · rintro ⟨before, ⟨place, d⟩, after, split, found, met⟩
    exact ⟨before, place, d, after, split, fun e member => (Demand.finding?_none e.1 e.2).1 (met e member), Demand.breach_of_finding? found⟩
  · rintro ⟨before, place, d, after, split, met, breach⟩
    exact ⟨before, (place, d), after, split, Demand.finding?_of_breach breach, fun e member => (Demand.finding?_none e.1 e.2).2 (met e member)⟩

theorem Node.firstFlaw?_eq (n : Node) (place : Place) :
    n.firstFlaw? engine place = (n.ownFlaw? engine place).or (shapeFlaw? engine place n.shape) := by
  obtain ⟨shape, annotations, optionality, restriction, misuse⟩ := n
  rw [Node.firstFlaw?]
  cases Node.ownFlaw? engine place _ <;> rfl

def Node.CheckedInOrder (engine : PatternEngine) (n : Node) : Prop :=
  ∀ place, n.firstFlaw? engine place = firstFinding? engine (n.demands place)

section
variable {place : Place}

theorem propertiesFlaw?_eq {ps : List (Property Node)} (each : ∀ p ∈ ps, p.value.CheckedInOrder engine)
    (earlier : List String) :
    propertiesFlaw? engine place earlier ps = firstFinding? engine (propertiesDemands place earlier ps) := by
  induction ps generalizing earlier with
  | nil => rw [propertiesFlaw?, propertiesDemands]; rfl
  | cons p rest ih =>
    obtain ⟨name, value, restriction⟩ := p
    rw [propertiesFlaw?, propertiesDemands, firstFinding?_cons, firstFinding?_append, each ⟨name, value, restriction⟩ List.mem_cons_self,
      ih fun p member => each p (List.mem_cons_of_mem _ member)]
    dsimp only [Demand.finding?]
    split <;> rfl

theorem parentsFlaw?_eq {ns : List Node} (each : ∀ n ∈ ns, n.CheckedInOrder engine) (i : Nat) :
    parentsFlaw? engine place i ns = firstFinding? engine (parentsDemands place i ns) := by
  induction ns generalizing i with
  | nil => rw [parentsFlaw?, parentsDemands]; rfl
  | cons n rest ih =>
    rw [parentsFlaw?, parentsDemands, firstFinding?_cons, firstFinding?_append, each n List.mem_cons_self,
      ih fun n member => each n (List.mem_cons_of_mem _ member)]
    dsimp only [Demand.finding?]
    cases canBeParent n.shape <;> rfl

theorem membersFlaw?_eq {ns : List Node} (each : ∀ n ∈ ns, n.CheckedInOrder engine) (i : Nat) :
    membersFlaw? engine place i ns = firstFinding? engine (membersDemands place i ns) := by
  induction ns generalizing i with
  | nil => rw [membersFlaw?, membersDemands]; rfl
  | cons n rest ih =>
    rw [membersFlaw?, membersDemands, firstFinding?_append, each n List.mem_cons_self, ih fun n member => each n (List.mem_cons_of_mem _ member)]

theorem shapeFlaw?_eq {s : Shape Node} (each : ∀ c ∈ s.children, c.CheckedInOrder engine) :
    shapeFlaw? engine place s = firstFinding? engine (shapeDemands place s) := by
  cases s with
  | object o =>
    obtain ⟨properties, additional, parents⟩ := o
    have own : propertiesFlaw? engine place [] properties = firstFinding? engine (propertiesDemands place [] properties) :=
      propertiesFlaw?_eq (fun p member => each _ (List.mem_append_left _ (List.mem_append_left _ (List.mem_map_of_mem member)))) []
    have other : additionalFlaw? engine place additional = firstFinding? engine (additionalDemands place additional) := by
      cases additional with
      | shape n => exact each n (List.mem_append_left _ (List.mem_append_right _ (List.mem_singleton_self n))) _
      | forbidden | allowed =>
        rw [additionalFlaw?, additionalDemands]
        rfl
    have inherited : parentsFlaw? engine place 0 parents = firstFinding? engine (parentsDemands place 0 parents) :=
      parentsFlaw?_eq (fun n member => each n (List.mem_append_right _ member)) 0
    rw [shapeFlaw?, shapeDemands, firstFinding?_append, firstFinding?_append, own, other, inherited]
  | array item => exact each item (List.mem_singleton_self item) _
  | union members => exact membersFlaw?_eq each 0
  | enumeration values naming =>
    rw [shapeFlaw?, shapeDemands, firstFinding?_cons]
    exact (Option.or_none ..).symm
  | linked declaration schema =>
    rw [shapeFlaw?, shapeDemands, firstFinding?_append, each declaration List.mem_cons_self, each schema (List.mem_cons_of_mem _ (List.mem_singleton_self _))]
  | _ =>
    rw [shapeFlaw?, shapeDemands]
    rfl

end

theorem Node.checked (n : Node) : n.CheckedInOrder engine := by
  induction n using Node.tree_induction with
  | node n ih =>
  intro place
  rw [Node.firstFlaw?_eq, Node.demands_eq, firstFinding?_cons, firstFinding?_cons, firstFinding?_cons, ← shapeFlaw?_eq ih]
  rw [← Option.or_assoc, ← Option.or_assoc]
  refine congrArg (Option.or · _) ?_
  unfold Node.ownFlaw?
  dsimp only [Demand.finding?]
  cases n.misuse with
  | cons m rest => rfl
  | nil =>
    cases n.annotations.patternFlaw? engine with
    | some flaw => rfl
    | none => cases n.default? <;> rfl

def Node.Demanding (engine : PatternEngine) (n : Node) : Prop :=
  ∀ place, (∀ e ∈ n.demands place, e.2.Met engine) ↔ n.Each (Node.LocallySound engine)

section
variable {place : Place}

theorem propertiesDemands_met {ps : List (Property Node)} (each : ∀ p ∈ ps, p.value.Demanding engine)
    (earlier : List String) :
    (∀ e ∈ propertiesDemands place earlier ps, e.2.Met engine) ↔
      ((ps.map (·.name)).Nodup ∧ ∀ name ∈ ps.map (·.name), name ∉ earlier) ∧ ∀ p ∈ ps, p.value.Each (Node.LocallySound engine) := by
  induction ps generalizing earlier with
  | nil => simp [propertiesDemands]
  | cons p rest ih =>
    obtain ⟨name, value, restriction⟩ := p
    rw [propertiesDemands, List.forall_mem_cons, List.forall_mem_append, each ⟨name, value, restriction⟩ List.mem_cons_self,
      ih fun p member => each p (List.mem_cons_of_mem _ member)]
    constructor
    · rintro ⟨fresh, here, ⟨distinct, apart⟩, below⟩
      refine ⟨⟨List.nodup_cons.2 ⟨fun again => apart name again List.mem_cons_self, distinct⟩, ?_⟩, List.forall_mem_cons.2 ⟨here, below⟩⟩
      exact List.forall_mem_cons.2 ⟨fresh, fun k member taken => apart k member (List.mem_cons_of_mem _ taken)⟩
    · rintro ⟨⟨distinct, apart⟩, each⟩
      obtain ⟨new, distinct⟩ := List.nodup_cons.1 distinct
      obtain ⟨fresh, apart⟩ := List.forall_mem_cons.1 apart
      obtain ⟨here, below⟩ := List.forall_mem_cons.1 each
      refine ⟨fresh, here, ⟨distinct, fun k member taken => ?_⟩, below⟩
      rcases List.mem_cons.1 taken with rfl | taken
      · exact new member
      · exact apart k member taken

theorem parentsDemands_met {ns : List Node} (each : ∀ n ∈ ns, n.Demanding engine) (i : Nat) :
    (∀ e ∈ parentsDemands place i ns, e.2.Met engine) ↔ (∀ n ∈ ns, n.shape.Extendable) ∧ ∀ n ∈ ns, n.Each (Node.LocallySound engine) := by
  induction ns generalizing i with
  | nil => simp [parentsDemands]
  | cons n rest ih =>
    rw [parentsDemands, List.forall_mem_cons, List.forall_mem_append, each n List.mem_cons_self,
      ih fun n member => each n (List.mem_cons_of_mem _ member), List.forall_mem_cons, List.forall_mem_cons]
    exact ⟨fun ⟨fit, here, fits, below⟩ => ⟨⟨fit, fits⟩, here, below⟩, fun ⟨⟨fit, fits⟩, here, below⟩ => ⟨fit, here, fits, below⟩⟩

theorem membersDemands_met {ns : List Node} (each : ∀ n ∈ ns, n.Demanding engine) (i : Nat) :
    (∀ e ∈ membersDemands place i ns, e.2.Met engine) ↔ ∀ n ∈ ns, n.Each (Node.LocallySound engine) := by
  induction ns generalizing i with
  | nil => simp [membersDemands]
  | cons n rest ih =>
    rw [membersDemands, List.forall_mem_append, each n List.mem_cons_self, ih fun n member => each n (List.mem_cons_of_mem _ member),
      List.forall_mem_cons]

theorem additionalDemands_met {additional : Additional Node} (each : ∀ n ∈ additional.nodes, n.Demanding engine) :
    (∀ e ∈ additionalDemands place additional, e.2.Met engine) ↔ ∀ n ∈ additional.nodes, n.Each (Node.LocallySound engine) := by
  cases additional with
  | shape n =>
    refine (each n (List.mem_singleton_self n) _).trans ?_
    rw [Additional.nodes, List.forall_mem_singleton]
  | forbidden | allowed => simp [additionalDemands, Additional.nodes]

theorem shapeDemands_met {s : Shape Node} (each : ∀ c ∈ s.children, c.Demanding engine) :
    (∀ e ∈ shapeDemands place s, e.2.Met engine) ↔ s.Orderly ∧ ∀ c ∈ s.children, c.Each (Node.LocallySound engine) := by
  cases s with
  | object o =>
    obtain ⟨properties, additional, parents⟩ := o
    simp only [Shape.children, List.forall_mem_append, List.forall_mem_map] at each ⊢
    obtain ⟨⟨own, other⟩, inherited⟩ := each
    rw [shapeDemands, List.forall_mem_append, List.forall_mem_append, propertiesDemands_met own, additionalDemands_met other,
      parentsDemands_met inherited, Shape.Orderly]
    constructor
    · rintro ⟨⟨⟨distinct, -⟩, each⟩, beside, extendable, above⟩
      exact ⟨⟨distinct, extendable⟩, ⟨each, beside⟩, above⟩
    · rintro ⟨⟨distinct, extendable⟩, ⟨each, beside⟩, above⟩
      exact ⟨⟨⟨distinct, fun _ _ => List.not_mem_nil⟩, each⟩, beside, extendable, above⟩
  | array item =>
    exact ((each item (List.mem_singleton_self item) _).trans List.forall_mem_singleton.symm).trans (and_iff_right trivial).symm
  | union members => exact (membersDemands_met each 0).trans (and_iff_right trivial).symm
  | enumeration values naming =>
    rw [shapeDemands, List.forall_mem_singleton]
    exact (and_iff_left (List.forall_mem_nil _)).symm
  | linked declaration schema =>
    rw [shapeDemands, List.forall_mem_append, each declaration List.mem_cons_self _,
      each schema (List.mem_cons_of_mem _ (List.mem_singleton_self _)) _]
    refine .trans ?_ (and_iff_right trivial).symm
    rw [Shape.children, List.forall_mem_cons, List.forall_mem_singleton]
  | _ =>
    rw [shapeDemands]
    exact iff_of_true (List.forall_mem_nil _) ⟨trivial, List.forall_mem_nil _⟩

end

-- What is demanded of a definition is that each of its nodes is well-formed.
theorem Node.demanding (n : Node) : n.Demanding engine := by
  induction n using Node.tree_induction with
  | node n ih =>
  intro place
  rw [Node.demands_eq, List.forall_mem_cons, List.forall_mem_cons, List.forall_mem_cons, shapeDemands_met ih, Node.each_iff]
  constructor
  · rintro ⟨unmisused, readable, fitting, orderly, below⟩
    exact ⟨⟨unmisused, readable, fitting, orderly⟩, below⟩
  · rintro ⟨⟨unmisused, readable, fitting, orderly⟩, below⟩
    exact ⟨unmisused, readable, fitting, orderly, below⟩

theorem Node.firstFlaw?_none (n : Node) : n.firstFlaw? engine .root = none ↔ n.Each (Node.LocallySound engine) := by
  rw [n.checked, firstFinding?_none]
  exact n.demanding .root

theorem Node.firstFlaw?_some (n : Node) (finding : Finding) :
    n.firstFlaw? engine .root = some finding ↔ n.FirstBreach engine finding := by
  rw [n.checked]
  exact firstFinding?_some _ finding

end TwinShape
