namespace TwinShape

abbrev Table (α : Type) := List (String × α)

namespace Table
variable {α : Type}

def keys (t : Table α) : List String := t.map (·.1)

def get? (t : Table α) (key : String) : Option α := t.lookup key

def has (t : Table α) (key : String) : Bool := (t.get? key).isSome

-- A key that is present keeps its place and takes the new value; a new key goes last.
def set : Table α → String → α → Table α
  | [], key, value => [(key, value)]
  | (k, v) :: rest, key, value =>
    if k = key then (k, value) :: rest else (k, v) :: set rest key value

def setAll (t : Table α) (entries : List (String × α)) : Table α :=
  entries.foldl (fun t entry => t.set entry.1 entry.2) t

def ofEntries (entries : List (String × α)) : Table α := setAll [] entries

@[simp] theorem get?_nil (key : String) : get? ([] : Table α) key = none := rfl

theorem get?_cons (k key : String) (v : α) (t : Table α) :
    get? ((k, v) :: t) key = if key = k then some v else get? t key := by
  by_cases h : key = k
  · simp [get?, h]
  · change (match key == k with
      | true => some v
      | false => get? t key) = _
    rw [show (key == k) = false by simpa using h, if_neg h]

theorem get?_set (t : Table α) (key other : String) (value : α) :
    (t.set key value).get? other = if other = key then some value else t.get? other := by
  induction t with
  | nil => simp [set, get?_cons]
  | cons entry rest ih =>
    obtain ⟨k, v⟩ := entry
    by_cases h : k = key <;> by_cases ho : other = key <;> by_cases hk : other = k <;>
      simp_all [set, get?_cons]

theorem has_set (t : Table α) (key other : String) (value : α) (taken : other = key ∨ t.has other) :
    (t.set key value).has other := by
  unfold has at taken ⊢
  rw [get?_set]
  split
  · rfl
  · exact taken.resolve_left ‹_›

theorem keys_set_of_mem {t : Table α} {key : String} (h : key ∈ t.keys) (value : α) :
    (t.set key value).keys = t.keys := by
  induction t with
  | nil => simp [keys] at h
  | cons entry rest ih =>
    obtain ⟨k, v⟩ := entry
    by_cases hk : k = key
    · simp [set, hk, keys]
    · have := ih (by simpa [keys, Ne.symm hk] using h)
      simpa [set, hk, keys] using this

theorem keys_set_of_not_mem {t : Table α} {key : String} (h : key ∉ t.keys) (value : α) :
    (t.set key value).keys = t.keys ++ [key] := by
  induction t with
  | nil => rfl
  | cons entry rest ih =>
    obtain ⟨k, v⟩ := entry
    have hk : k ≠ key := by intro eq; simp [keys, eq] at h
    have := ih (by intro m; apply h; simp only [keys, List.map_cons, List.mem_cons]; exact .inr m)
    simpa [set, hk, keys] using this

end Table
end TwinShape
