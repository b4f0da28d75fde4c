/-!
# Maps from names

Finite maps whose keys are names, as lists of entries in the order of the names.  Lookup finds the
first entry of a name and `set` replaces it, so the two laws of maps hold without any assumption on
the list.

## Main definitions

* `NameMap.get?`, `NameMap.set`, `NameMap.names`: lookup, update, and the names in order

## Main results

* `NameMap.get?_set_self`, `NameMap.get?_set_of_ne`: an update is seen at its name and nowhere else
* `NameMap.eq_or_get?_of_get?_set`: where values come from
* `NameMap.set_comm`: updates at two names can be made in any order
-/

namespace MonkeyLang

/-- A finite map from names, in the order of the names. -/
abbrev NameMap (α : Type) : Type := List (String × α)

namespace NameMap

variable {α : Type}

/-- What a name is mapped to. -/
def get? (name : String) : NameMap α → Option α
  | [] => none
  | (key, value) :: rest => if key = name then some value else get? name rest

/-- Maps a name to a value, in place of what it was mapped to before. -/
def set (name : String) (value : α) : NameMap α → NameMap α
  | [] => [(name, value)]
  | (key, old) :: rest =>
    if key = name then (name, value) :: rest
    else if name < key then (name, value) :: (key, old) :: rest
    else (key, old) :: set name value rest

/-- The names with an entry, in order. -/
def names (map : NameMap α) : List String := map.map Prod.fst

/-- An update is seen at its name. -/
theorem get?_set_self (name : String) (value : α) (map : NameMap α) :
    get? name (set name value map) = some value := by
  induction map with
  | nil => simp [set, get?]
  | cons entry rest ih =>
    obtain ⟨key, old⟩ := entry
    by_cases hkey : key = name
    · simp [set, get?, hkey]
    · by_cases hlt : name < key <;> simp [set, get?, hkey, hlt, ih]

/-- An update is not seen at any other name. -/
theorem get?_set_of_ne {name other : String} (h : other ≠ name) (value : α) (map : NameMap α) :
    get? other (set name value map) = get? other map := by
  have h' : name ≠ other := Ne.symm h
  induction map with
  | nil => simp [set, get?, h']
  | cons entry rest ih =>
    obtain ⟨key, old⟩ := entry
    by_cases hkey : key = name
    · simp [set, get?, hkey, h']
    · by_cases hlt : name < key <;> simp [set, get?, hkey, hlt, h', ih]

/-- An update adds nothing but its value. -/
theorem eq_or_get?_of_get?_set {name other : String} {value found : α} {map : NameMap α}
    (h : get? other (set name value map) = some found) :
    found = value ∨ get? other map = some found := by
  by_cases same : other = name
  · rw [same, get?_set_self] at h
    exact .inl (Option.some.inj h).symm
  · rw [get?_set_of_ne same] at h
    exact .inr h

theorem set_comm_of_lt {name other : String} (lt : name < other) (value value' : α)
    (map : NameMap α) :
    set name value (set other value' map) = set other value' (set name value map) := by
  have ne : name ≠ other := fun eq => String.lt_irrefl other (eq ▸ lt)
  have not_gt : ¬ other < name := String.lt_asymm lt
  induction map with
  | nil => simp [set, ne, ne.symm, lt, not_gt]
  | cons entry rest ih =>
    obtain ⟨key, old⟩ := entry
    by_cases hkey : key = name
    · simp [set, hkey, ne, not_gt]
    · by_cases before : name < key
      -- the first name goes right before this entry, whatever becomes of the second
      · by_cases hkey' : key = other
        · simp [set, hkey', ne, ne.symm, lt, not_gt]
        · by_cases before' : other < key <;>
            simp [set, hkey, hkey', before, before', ne, ne.symm, lt, not_gt]
      -- both names go behind this entry
      · have after : ¬ other < key := fun gt => before (String.lt_trans lt gt)
        have hkey' : key ≠ other := by
          rintro rfl
          exact before lt
        simp [set, hkey, hkey', before, after, ih]

/-- Updates at two names can be made in any order. -/
theorem set_comm {name other : String} (h : name ≠ other) (value value' : α) (map : NameMap α) :
    set name value (set other value' map) = set other value' (set name value map) := by
  rcases Std.lt_trichotomy name other with lt | eq | gt
  · exact set_comm_of_lt lt value value' map
  · exact absurd eq h
  · exact (set_comm_of_lt gt value' value map).symm

end NameMap

end MonkeyLang
