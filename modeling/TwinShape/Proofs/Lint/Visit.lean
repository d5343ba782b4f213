import TwinShape.Lint.Visit
import TwinShape.Proofs.Projection.References
import TwinShape.Proofs.Schema.Finished

namespace TwinShape

theorem toString_injective {i k : Nat} (same : toString i = toString k) : i = k := by
  have digits : Nat.toDigits 10 i = Nat.toDigits 10 k := by
    rw [← Nat.toList_repr, ← Nat.toList_repr]
    exact congrArg String.toList same
  rw [← @Nat.ofDigitChars_toDigits 10 i (by decide) (by decide), digits, Nat.ofDigitChars_toDigits (by decide) (by decide)]

namespace Place

def Within (q p : Place) : Prop := p.segments <+: q.segments

theorem Within.refl (p : Place) : p.Within p := List.prefix_rfl

theorem Within.trans {p q s : Place} (lower : s.Within q) (upper : q.Within p) : s.Within p :=
  List.IsPrefix.trans upper lower

theorem child_within (p : Place) (segment : String) : (p.child segment).Within p := List.prefix_append ..

theorem not_within_child (p : Place) (segment : String) : ¬p.Within (p.child segment) := by
  intro within
  have shorter := within.length_le
  unfold child at shorter
  rw [List.length_append] at shorter
  exact Nat.not_succ_le_self _ shorter

theorem child_determined {p q : Place} (first : q.Within (p.child a)) (second : q.Within (p.child b)) : a = b := by
  have lengths : (p.segments ++ [a]).length = (p.segments ++ [b]).length := by simp only [List.length_append, List.length_singleton]
  have same := (List.prefix_of_prefix_length_le first second lengths.le).eq_of_length lengths
  exact List.singleton_inj.1 (List.append_cancel_left same)

theorem item_inj {p q : Place} {segment : String} (same : p.item segment i = q.item segment k) : p = q ∧ i = k := by
  obtain ⟨above⟩ := p
  obtain ⟨other⟩ := q
  have lists : above ++ [segment] ++ [toString i] = other ++ [segment] ++ [toString k] := congrArg Place.segments same
  obtain ⟨front, last⟩ := List.append_inj' lists rfl
  exact ⟨congrArg Place.mk (List.append_cancel_right front), toString_injective (List.singleton_inj.1 last)⟩

end Place

def Shape.stations (p : Place) : Shape Node → List (Place × Node)
  | .object o =>
    o.properties.map (fun own => (p.property own.name, own.value)) ++ o.additional.nodes.map (p.child "additionalProperties", ·)
  | .array item => [(p.child "items", item)]
  | .union members => members.zipIdx.map fun e => (p.item "anyOf" e.2, e.1)
  | .linked _ schema => [(p, schema)]
  | _ => []

-- Every node of the schema of a node, once for each place at which it stands.
def Node.whole (n : Node) : List Node := n.gather ([·])

theorem Node.mem_whole {x n : Node} : x ∈ n.whole ↔ x.WrittenPart n := by
  induction n using Node.tree_induction with
  | node n ih =>
    unfold Node.whole at ih ⊢
    rw [Node.gather_eq, List.singleton_append, List.mem_cons, List.mem_flatMap]
    constructor
    · rintro (rfl | ⟨c, child, inside⟩)
      · exact .self
      · exact .inside child ((ih c (Shape.child_of_written child)).1 inside)
    · intro part
      cases part with
      | self => exact .inl rfl
      | inside child part => exact .inr ⟨_, child, (ih _ (Shape.child_of_written child)).2 part⟩

section
variable {p q : Place} {shape : Shape Node} {n x : Node}

theorem propertiesVisited_eq (p : Place) (properties : List (Property Node)) :
    propertiesVisited p properties = properties.flatMap fun own => own.value.visited (p.property own.name) := by
  induction properties with
  | nil => rfl
  | cons own rest ih => rw [propertiesVisited, ih, List.flatMap_cons]

theorem nodesVisited_eq (place : Nat → Place) (i : Nat) (ns : List Node) :
    nodesVisited place i ns = (ns.zipIdx i).flatMap fun e => e.1.visited (place e.2) := by
  induction ns generalizing i with
  | nil => rfl
  | cons n rest ih => rw [nodesVisited, ih, List.zipIdx_cons, List.flatMap_cons]

theorem shapeVisited_eq (tidy : shape.Tidy) (p : Place) :
    shapeVisited p shape = (shape.stations p).flatMap fun e => e.2.visited e.1 := by
  cases shape with
  | object o =>
    obtain ⟨properties, additional, parents⟩ := o
    obtain ⟨-, -, rfl⟩ := tidy
    rw [shapeVisited, nodesVisited, List.append_nil, propertiesVisited_eq, Shape.stations, List.flatMap_append, List.flatMap_map]
    refine congrArg _ ?_
    cases additional with
    | forbidden | allowed => rfl
    | shape n => exact (List.append_nil _).symm
  | union members => rw [shapeVisited, nodesVisited_eq, Shape.stations, List.flatMap_map]
  | array item => exact (List.append_nil _).symm
  | linked declaration schema => exact (List.append_nil _).symm
  | _ => rfl

theorem Node.visited_eq (tidy : n.shape.Tidy) (p : Place) :
    n.visited p = (p, n) :: (n.shape.stations p).flatMap fun e => e.2.visited e.1 := by
  obtain ⟨shape, annotations, optionality, restriction, misuse⟩ := n
  rw [Node.visited, shapeVisited_eq tidy]

theorem Node.visited_self (n : Node) (p : Place) : (p, n) ∈ n.visited p := by
  obtain ⟨shape, annotations, optionality, restriction, misuse⟩ := n
  rw [Node.visited]
  exact List.mem_cons_self

theorem stations_nodes (p : Place) (shape : Shape Node) : (shape.stations p).map (·.2) = shape.writtenNodes := by
  cases shape with
  | object o =>
    unfold Shape.stations Shape.writtenNodes
    rw [List.map_append, List.map_map, List.map_map]
    exact congrArg _ (List.map_id _)
  | union members =>
    unfold Shape.stations Shape.writtenNodes
    rw [List.map_map]
    exact List.zipIdx_map_fst 0 members
  | _ => rfl

theorem child_of_station (station : (q, x) ∈ shape.stations p) : x ∈ shape.writtenNodes := by
  rw [← stations_nodes p]
  exact List.mem_map_of_mem (f := (·.2)) station

theorem Node.visited_nodes (tidy : n.Each (·.shape.Tidy)) (p : Place) : (n.visited p).map (·.2) = n.whole := by
  induction n using Node.tree_induction generalizing p with
  | node n ih =>
    have ⟨here, below⟩ := Node.each_iff.1 tidy
    unfold Node.whole at ih ⊢
    rw [Node.visited_eq here, Node.gather_eq, List.map_cons, List.map_flatMap, ← stations_nodes p, List.flatMap_map]
    refine congrArg (n :: ·) (List.flatMap_congr fun e station => ?_)
    have child := Shape.child_of_written (child_of_station station)
    exact ih e.2 child (below e.2 child) e.1

theorem station_below (unlinked : shape.isLinked = false) (station : (q, x) ∈ shape.stations p) :
    ∃ segment, q.Within (p.child segment) := by
  cases shape with
  | object o =>
    rcases List.mem_append.1 station with member | member
    · obtain ⟨own, -, same⟩ := List.mem_map.1 member
      cases same
      exact ⟨_, Place.child_within _ _⟩
    · obtain ⟨only, -, same⟩ := List.mem_map.1 member
      cases same
      exact ⟨_, .refl _⟩
  | array item =>
    cases List.mem_singleton.1 station
    exact ⟨_, .refl _⟩
  | union members =>
    obtain ⟨e, -, same⟩ := List.mem_map.1 station
    cases same
    exact ⟨_, Place.child_within _ _⟩
  | linked declaration schema => cases unlinked
  | _ => cases station

-- No place is below two of the nodes of a shape.
def Place.Apart (p q : Place) : Prop := ∀ place : Place, place.Within p → ¬place.Within q

theorem stations_apart (tidy : shape.Tidy) (p : Place) : (shape.stations p).Pairwise fun e f => e.1.Apart f.1 := by
  cases shape with
  | object o =>
    obtain ⟨distinct, -, -⟩ := tidy
    refine List.pairwise_append.2 ⟨?_, ?_, ?_⟩
    · refine List.pairwise_map.2 ((List.pairwise_map.1 distinct).imp fun different place first second => ?_)
      exact different (Place.child_determined first second)
    · cases o.additional with
      | forbidden | allowed => exact .nil
      | shape n => exact List.pairwise_singleton _ _
    · rintro e member f other place first second
      obtain ⟨own, -, rfl⟩ := List.mem_map.1 member
      obtain ⟨only, -, rfl⟩ := List.mem_map.1 other
      have same := Place.child_determined (first.trans (Place.child_within _ _)) second
      exact absurd same (by decide)
  | union members =>
    refine List.pairwise_map.2 ?_
    have numbered : (members.zipIdx.map (·.2)).Nodup := by
      rw [List.zipIdx_map_snd]
      exact List.nodup_range'
    refine (List.pairwise_map.1 numbered).imp fun different place first second => ?_
    exact different (toString_injective (Place.child_determined first second))
  | array item => exact List.pairwise_singleton _ _
  | linked declaration schema => exact List.pairwise_singleton _ _
  | _ => exact .nil

theorem Node.visited_within (tidy : n.Each (·.shape.Tidy)) (unlinked : n.Each (·.shape.isLinked = false))
    (member : (q, x) ∈ n.visited p) : q.Within p := by
  induction n using Node.tree_induction generalizing p with
  | node n ih =>
    have ⟨here, below⟩ := Node.each_iff.1 tidy
    have ⟨unlinked', within⟩ := Node.each_iff.1 unlinked
    rw [Node.visited_eq here] at member
    rcases List.mem_cons.1 member with first | later
    · cases first
      exact .refl _
    · obtain ⟨⟨place, c⟩, station, inside⟩ := List.mem_flatMap.1 later
      have child := Shape.child_of_written (child_of_station station)
      obtain ⟨segment, lower⟩ := station_below unlinked' station
      exact ((ih c child (below c child) (within c child) inside).trans lower).trans (Place.child_within _ _)

theorem Node.visited_nodup (tidy : n.Each (·.shape.Tidy)) (unlinked : n.Each (·.shape.isLinked = false)) (p : Place) :
    ((n.visited p).map (·.1)).Nodup := by
  induction n using Node.tree_induction generalizing p with
  | node n ih =>
    have ⟨here, below⟩ := Node.each_iff.1 tidy
    have ⟨unlinked', within⟩ := Node.each_iff.1 unlinked
    have inside : ∀ {q x place}, (q, x) ∈ n.shape.stations p → place ∈ (x.visited q).map (·.1) → place.Within q := by
      intro q x place station member
      obtain ⟨⟨_, y⟩, visited, rfl⟩ := List.mem_map.1 member
      have child := Shape.child_of_written (child_of_station station)
      exact Node.visited_within (below x child) (within x child) visited
    rw [Node.visited_eq here, List.map_cons, List.map_flatMap]
    refine List.nodup_cons.2 ⟨fun member => ?_, List.nodup_flatMap.2 ⟨fun e station => ?_, ?_⟩⟩
    · obtain ⟨⟨q, x⟩, station, visited⟩ := List.mem_flatMap.1 member
      obtain ⟨segment, lower⟩ := station_below unlinked' station
      exact Place.not_within_child _ segment ((inside station visited).trans lower)
    · have child := Shape.child_of_written (child_of_station station)
      exact ih e.2 child (below e.2 child) (within e.2 child) e.1
    · refine (stations_apart here p).imp_of_mem fun first second apart place member other => ?_
      exact apart place (inside first member) (inside second other)

theorem Node.part_of_visited (tidy : n.Each (·.shape.Tidy)) (member : (q, x) ∈ n.visited p) : x.WrittenPart n := by
  rw [← Node.mem_whole, ← Node.visited_nodes tidy p]
  exact List.mem_map_of_mem (f := (·.2)) member

end
end TwinShape
