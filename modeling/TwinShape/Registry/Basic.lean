import TwinShape.Engines
import TwinShape.Fault
import TwinShape.Table

namespace TwinShape

-- A definition yields the same node every time it is built, so the node itself is kept.
structure Definition where
  name : String
  node : Node

structure Registry where
  -- In the order of registration.
  definitions : List Definition
  distinct : (definitions.map (·.name)).Nodup
  -- By which definitions are checked, and values against them.
  engines : Engines

namespace Registry

def empty (engines : Engines) : Registry := ⟨[], .nil, engines⟩

def names (r : Registry) : List String := r.definitions.map (·.name)

def contains (r : Registry) (name : String) : Bool := r.names.contains name

def find? (r : Registry) (name : String) : Option Node :=
  (r.definitions.find? (·.name == name)).map (·.node)

-- A name is registered once; registering it again changes nothing.
def define (r : Registry) (d : Definition) : Except Fault Registry :=
  if h : d.name ∈ r.definitions.map (·.name) then .error (.duplicateDefinition d.name)
  else .ok ⟨r.definitions ++ [d], by
    simpa [List.nodup_append, r.distinct] using fun other member same => h (List.mem_map.2 ⟨other, member, same⟩), r.engines⟩

-- Registers a definition, or gives a registered name a new node in its old place.
def put (r : Registry) (d : Definition) : Registry :=
  if h : d.name ∈ r.definitions.map (·.name) then
    ⟨r.definitions.map fun e => if e.name = d.name then d else e, by
      have same : (r.definitions.map fun e => if e.name = d.name then d else e).map (·.name) =
          r.definitions.map (·.name) := by
        rw [List.map_map]
        refine List.map_congr_left fun e _ => ?_
        by_cases hn : e.name = d.name <;> simp [hn]
      exact same ▸ r.distinct, r.engines⟩
  else ⟨r.definitions ++ [d], by
    simpa [List.nodup_append, r.distinct] using fun other member same => h (List.mem_map.2 ⟨other, member, same⟩), r.engines⟩

theorem mem_names_of_find? {r : Registry} {name : String} {n : Node}
    (found : r.find? name = some n) : name ∈ r.names := by
  obtain ⟨d, hd, _⟩ := Option.map_eq_some_iff.1 found
  have same : d.name = name := by simpa using List.find?_some hd
  exact same ▸ List.mem_map_of_mem (List.mem_of_find?_eq_some hd)

def unvisitedIn (names visited : List String) : Nat := names.countP (· ∉ visited)

theorem unvisitedIn_cons_lt {names visited : List String} {name : String} (known : name ∈ names)
    (fresh : name ∉ visited) : unvisitedIn names (name :: visited) < unvisitedIn names visited := by
  unfold unvisitedIn
  induction names with
  | nil => cases known
  | cons first rest ih =>
    have fewer : rest.countP (· ∉ name :: visited) ≤ rest.countP (· ∉ visited) :=
      List.countP_mono_left (by simp_all)
    by_cases same : first = name
    · subst same
      have gone : (first :: rest).countP (· ∉ first :: visited) = rest.countP (· ∉ first :: visited) :=
        List.countP_cons_of_neg (by simp)
      have counted : (first :: rest).countP (· ∉ visited) = rest.countP (· ∉ visited) + 1 :=
        List.countP_cons_of_pos (by simpa using fresh)
      omega
    · have := ih ((List.mem_cons.1 known).resolve_left (Ne.symm same))
      simp_all [List.countP_cons]

def unvisited (r : Registry) (visited : List String) : Nat := unvisitedIn r.names visited

theorem unvisited_cons_lt {r : Registry} {name : String} {visited : List String}
    (registered : name ∈ r.names) (fresh : name ∉ visited) :
    r.unvisited (name :: visited) < r.unvisited visited := unvisitedIn_cons_lt registered fresh

end Registry
end TwinShape
