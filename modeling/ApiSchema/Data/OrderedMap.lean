/-!
# Insertion-ordered maps

A map here is read back in the order in which its keys were first bound: binding a key again
replaces its value and keeps its place. The view of a map is its list of `entries`, in which no
key occurs twice, and each operation comes with what it does to look-up and to the list of keys.
-/

namespace ApiSchema

/-- A finite map whose entries stand in the order in which their keys were first bound. -/
structure OrderedMap (κ ν : Type) where
  /-- The bindings, oldest key first. -/
  entries : List (κ × ν)
  /-- No key is bound twice. -/
  distinct : (entries.map Prod.fst).Nodup
  deriving DecidableEq

namespace OrderedMap

variable {κ ν : Type}

/-- The map that binds nothing. -/
def empty : OrderedMap κ ν := ⟨[], List.nodup_nil⟩

instance : Inhabited (OrderedMap κ ν) := ⟨empty⟩

/-- The bound keys, oldest first. -/
def keys (m : OrderedMap κ ν) : List κ := m.entries.map Prod.fst

/-- The bound values, in the order of their keys. -/
def values (m : OrderedMap κ ν) : List ν := m.entries.map Prod.snd

/-- The number of bound keys. -/
def size (m : OrderedMap κ ν) : Nat := m.entries.length

/-- Whether the map binds nothing. -/
def isEmpty (m : OrderedMap κ ν) : Bool := m.entries.isEmpty

variable [DecidableEq κ]

/-- The value bound to `key` in a list of bindings. -/
def findIn (key : κ) : List (κ × ν) → Option ν
  | [] => none
  | (k, v) :: rest => if k = key then some v else findIn key rest

/-- The value bound to `key`. -/
def find? (m : OrderedMap κ ν) (key : κ) : Option ν := findIn key m.entries

/-- Whether `key` is bound. -/
def contains (m : OrderedMap κ ν) (key : κ) : Bool := (m.find? key).isSome

/-- Binds `key` in a list of bindings: in its place if it is bound there, else at the end. -/
def bindIn (key : κ) (value : ν) : List (κ × ν) → List (κ × ν)
  | [] => [(key, value)]
  | (k, v) :: rest => if k = key then (k, value) :: rest else (k, v) :: bindIn key value rest

/-- The keys after a binding are the old ones, followed by the bound key if it is new. -/
theorem map_fst_bindIn (key : κ) (value : ν) (entries : List (κ × ν)) :
    (bindIn key value entries).map Prod.fst =
      if key ∈ entries.map Prod.fst then entries.map Prod.fst
      else entries.map Prod.fst ++ [key] := by
  induction entries with
  | nil => simp [bindIn]
  | cons entry rest ih =>
    obtain ⟨k, v⟩ := entry
    by_cases hk : k = key
    · simp [bindIn, hk]
    · have hne : ¬ key = k := fun h => hk h.symm
      by_cases hmem : key ∈ rest.map Prod.fst
      · rw [if_pos hmem] at ih
        rw [if_pos (by simpa using Or.inr (by simpa using hmem))]
        simpa [bindIn, hk] using ih
      · rw [if_neg hmem] at ih
        rw [if_neg (by simpa [hne] using hmem)]
        simpa [bindIn, hk] using ih

/-- A binding keeps the keys of a list distinct. -/
theorem nodup_bindIn (key : κ) (value : ν) {entries : List (κ × ν)}
    (h : (entries.map Prod.fst).Nodup) : ((bindIn key value entries).map Prod.fst).Nodup := by
  rw [map_fst_bindIn]
  split
  · exact h
  next hnew =>
    rw [List.nodup_append]
    refine ⟨h, by simp, ?_⟩
    intro a ha b hb hab
    rw [List.mem_singleton] at hb
    exact hnew (hb ▸ hab ▸ ha)

/-- Binds `key` to `value`; a key that was bound keeps its place. -/
def insert (m : OrderedMap κ ν) (key : κ) (value : ν) : OrderedMap κ ν :=
  ⟨bindIn key value m.entries, nodup_bindIn key value m.distinct⟩

/-- Binds `key` to `value` unless it is already bound. -/
def insertIfNew (m : OrderedMap κ ν) (key : κ) (value : ν) : OrderedMap κ ν :=
  if m.contains key then m else m.insert key value

/-- Removes the binding of `key`; the other keys keep their order. -/
def erase (m : OrderedMap κ ν) (key : κ) : OrderedMap κ ν :=
  ⟨m.entries.filter (fun entry => entry.1 ≠ key), by
    rw [show (fun entry : κ × ν => decide (entry.1 ≠ key)) = (fun k => decide (k ≠ key)) ∘ Prod.fst
      from rfl, ← List.filter_map]
    exact m.distinct.filter _⟩

/-- Binds each pair of a list in turn. -/
def ofList (pairs : List (κ × ν)) : OrderedMap κ ν :=
  pairs.foldl (fun m pair => m.insert pair.1 pair.2) empty

/-! ### What the operations do to look-up and to the keys -/

@[simp] theorem find?_empty (key : κ) : (empty : OrderedMap κ ν).find? key = none := rfl

omit [DecidableEq κ] in
@[simp] theorem keys_empty : (empty : OrderedMap κ ν).keys = [] := rfl

/-- Looking a key up in a list of bindings after binding a key there. -/
theorem findIn_bindIn (key other : κ) (value : ν) (entries : List (κ × ν)) :
    findIn other (bindIn key value entries) =
      if other = key then some value else findIn other entries := by
  induction entries with
  | nil =>
    by_cases h : other = key
    · simp [bindIn, findIn, h]
    · simp [bindIn, findIn, h, Ne.symm h]
  | cons entry rest ih =>
    obtain ⟨k, v⟩ := entry
    by_cases hk : k = key
    · subst hk
      by_cases h : other = k
      · simp [bindIn, findIn, h]
      · simp [bindIn, findIn, h, Ne.symm h]
    · by_cases hother : k = other
      · subst hother
        simp [bindIn, findIn, hk]
      · simp [bindIn, findIn, hk, hother, ih]

/-- A key reads back the value it was last bound to, and no other key is affected. -/
theorem find?_insert (m : OrderedMap κ ν) (key other : κ) (value : ν) :
    (m.insert key value).find? other = if other = key then some value else m.find? other :=
  findIn_bindIn key other value m.entries

@[simp] theorem find?_insert_self (m : OrderedMap κ ν) (key : κ) (value : ν) :
    (m.insert key value).find? key = some value := by
  simp [find?_insert]

/-- A new key comes last, and a bound key keeps its place. -/
theorem keys_insert (m : OrderedMap κ ν) (key : κ) (value : ν) :
    (m.insert key value).keys = if key ∈ m.keys then m.keys else m.keys ++ [key] :=
  map_fst_bindIn key value m.entries

/-- In a list of bindings with distinct keys, look-up finds exactly the listed bindings. -/
theorem findIn_eq_some_iff {entries : List (κ × ν)} (h : (entries.map Prod.fst).Nodup)
    {key : κ} {value : ν} : findIn key entries = some value ↔ (key, value) ∈ entries := by
  induction entries with
  | nil => simp [findIn]
  | cons entry rest ih =>
    obtain ⟨k, v⟩ := entry
    rw [List.map_cons, List.nodup_cons] at h
    by_cases hk : k = key
    · subst hk
      have hnot : ∀ w, (k, w) ∉ rest := fun w hw =>
        h.1 (List.mem_map.mpr ⟨(k, w), hw, rfl⟩)
      simp [findIn, hnot, eq_comm]
    · simp [findIn, hk, Ne.symm hk, ih h.2]

/-- Look-up finds exactly the entries of the map. -/
theorem find?_eq_some_iff {m : OrderedMap κ ν} {key : κ} {value : ν} :
    m.find? key = some value ↔ (key, value) ∈ m.entries :=
  findIn_eq_some_iff m.distinct

/-- A key is found exactly when it is listed. -/
theorem contains_iff {m : OrderedMap κ ν} {key : κ} : m.contains key = true ↔ key ∈ m.keys := by
  rw [contains, Option.isSome_iff_exists, keys, List.mem_map]
  constructor
  · rintro ⟨value, h⟩
    exact ⟨(key, value), find?_eq_some_iff.mp h, rfl⟩
  · rintro ⟨⟨k, value⟩, h, rfl⟩
    exact ⟨value, find?_eq_some_iff.mpr h⟩

/-- A key is not found exactly when it is not listed. -/
theorem find?_eq_none_iff {m : OrderedMap κ ν} {key : κ} : m.find? key = none ↔ key ∉ m.keys := by
  rw [← contains_iff, contains]
  cases m.find? key <;> simp

/-- What is found is the new value, or was there before. -/
theorem find?_insert_cases {m : OrderedMap κ ν} {key other : κ} {value v : ν}
    (h : (m.insert key value).find? other = some v) :
    other = key ∧ v = value ∨ m.find? other = some v := by
  rw [find?_insert] at h
  split at h
  next heq => exact .inl ⟨heq, (Option.some.inj h).symm⟩
  · exact .inr h

/-- A binding adds no other value. -/
theorem mem_values_insert {m : OrderedMap κ ν} {key : κ} {value v : ν}
    (h : v ∈ (m.insert key value).values) : v = value ∨ v ∈ m.values := by
  obtain ⟨entry, hentry, rfl⟩ := List.mem_map.mp h
  rcases find?_insert_cases (find?_eq_some_iff.mpr hentry) with ⟨-, heq⟩ | hfind
  · exact .inl heq
  · exact .inr (List.mem_map.mpr ⟨entry, find?_eq_some_iff.mp hfind, rfl⟩)

/-- A key that was bound keeps its value. -/
theorem find?_insertIfNew (m : OrderedMap κ ν) (key other : κ) (value : ν) :
    (m.insertIfNew key value).find? other =
      if other = key then (m.find? key).or (some value) else m.find? other := by
  rw [insertIfNew, contains]
  cases hfind : m.find? key with
  | none =>
    rw [Option.isSome_none, if_neg (by simp), find?_insert]
    rfl
  | some found =>
    rw [Option.isSome_some, if_pos rfl]
    split
    next heq =>
      rw [heq, hfind]
      rfl
    · rfl

/-- What is found is new, or was there before. -/
theorem find?_insertIfNew_cases {m : OrderedMap κ ν} {key other : κ} {value v : ν}
    (h : (m.insertIfNew key value).find? other = some v) :
    other = key ∧ v = value ∨ m.find? other = some v := by
  rw [insertIfNew] at h
  split at h
  · exact Or.inr h
  · exact find?_insert_cases h

/-- A binding that may be taken already adds no other value. -/
theorem mem_values_insertIfNew {m : OrderedMap κ ν} {key : κ} {value v : ν}
    (h : v ∈ (m.insertIfNew key value).values) : v = value ∨ v ∈ m.values := by
  rw [insertIfNew] at h
  split at h
  · exact Or.inr h
  · exact mem_values_insert h

/-- Removing a key makes it unbound and leaves every other binding as it was. -/
theorem find?_erase (m : OrderedMap κ ν) (key other : κ) :
    (m.erase key).find? other = if other = key then none else m.find? other := by
  by_cases h : other = key
  · rw [if_pos h, find?_eq_none_iff]
    simp [keys, erase, h]
  · rw [if_neg h]
    apply Option.ext
    intro value
    simp [find?_eq_some_iff, erase, h]

/-- What is found after a key is removed was there before. -/
theorem find?_of_find?_erase {m : OrderedMap κ ν} {key other : κ} {v : ν}
    (h : (m.erase key).find? other = some v) : m.find? other = some v := by
  rw [find?_erase] at h
  split at h
  · cases h
  · exact h

/-- A new key is bound at the end. -/
theorem entries_insert {m : OrderedMap κ ν} {key : κ} (value : ν) (h : m.find? key = none) :
    (m.insert key value).entries = m.entries ++ [(key, value)] := by
  have hentries : ∀ {entries : List (κ × ν)}, key ∉ entries.map Prod.fst →
      bindIn key value entries = entries ++ [(key, value)] := by
    intro entries hnew
    induction entries with
    | nil => rfl
    | cons entry rest ih =>
      rw [List.map_cons, List.mem_cons, not_or] at hnew
      rw [bindIn, if_neg (Ne.symm hnew.1), ih hnew.2, List.cons_append]
  exact hentries (find?_eq_none_iff.mp h)

/-- Binding a new key and removing it again changes nothing. -/
theorem erase_insert {m : OrderedMap κ ν} {key : κ} (value : ν) (h : m.find? key = none) :
    (m.insert key value).erase key = m := by
  have hentries : ((m.insert key value).erase key).entries = m.entries := by
    have hnew := find?_eq_none_iff.mp h
    change (m.insert key value).entries.filter (fun entry => decide (entry.1 ≠ key)) = m.entries
    rw [entries_insert value h, List.filter_append, List.filter_cons_of_neg (by simp),
      List.filter_nil, List.append_nil, List.filter_eq_self]
    intro entry hentry
    have hne : entry.1 ≠ key := fun heq => hnew (heq ▸ List.mem_map_of_mem hentry)
    simpa using hne
  obtain ⟨entries, hdistinct⟩ := m
  simp only [insert, erase] at hentries ⊢
  congr

/-- Where a key is bound unless it is bound already, nothing is changed but the end. -/
theorem entries_prefix_insertIfNew (m : OrderedMap κ ν) (key : κ) (value : ν) :
    m.entries <+: (m.insertIfNew key value).entries := by
  rw [insertIfNew, contains]
  cases hfind : m.find? key with
  | some found => exact List.prefix_rfl
  | none =>
    rw [Option.isSome_none, if_neg (by simp), entries_insert value hfind]
    exact List.prefix_append _ _

end OrderedMap

end ApiSchema
