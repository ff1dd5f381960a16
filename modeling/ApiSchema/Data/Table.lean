/-!
# Tables of numbered rows

Nodes, symbols and types are kept in tables that only grow. A row is referred to by its
identifier, which wraps its index, so that identifiers of different tables cannot be confused,
and rows are numbered in the order in which they were added.
-/

namespace ApiSchema

/-- Identifiers that number the rows of a table from zero. -/
class RowId (ι : Type) where
  /-- The identifier of the row at an index. -/
  ofIndex : Nat → ι
  /-- The index of the row with an identifier. -/
  index : ι → Nat
  index_ofIndex : ∀ i, index (ofIndex i) = i
  ofIndex_index : ∀ id, ofIndex (index id) = id

attribute [simp] RowId.index_ofIndex RowId.ofIndex_index

/-- A growing table whose rows of type `α` are identified by `ι`. -/
structure Table (ι α : Type) where
  /-- The rows, oldest first. -/
  rows : Array α
  deriving DecidableEq

namespace Table

variable {ι α : Type} [RowId ι]

/-- The table without rows. -/
def empty : Table ι α := ⟨#[]⟩

instance : Inhabited (Table ι α) := ⟨⟨#[]⟩⟩

/-- The number of rows. -/
def size (t : Table ι α) : Nat := t.rows.size

/-- Whether the table has no rows. -/
def isEmpty (t : Table ι α) : Bool := t.rows.isEmpty

/-- The identifier that the next added row will have. -/
def nextId (t : Table ι α) : ι := RowId.ofIndex t.size

/-- Adds a row at the end. -/
def push (t : Table ι α) (row : α) : Table ι α := ⟨t.rows.push row⟩

/-- The row with an identifier. -/
def get? (t : Table ι α) (id : ι) : Option α := t.rows[RowId.index id]?

/-- Replaces the row with an identifier by its image under `f`, if there is one. -/
def modify (t : Table ι α) (id : ι) (f : α → α) : Table ι α :=
  ⟨t.rows.modify (RowId.index id) f⟩

/-- The identifiers of the rows, oldest first. -/
def ids (t : Table ι α) : List ι := (List.range t.size).map RowId.ofIndex

/-- The rows with their identifiers, oldest first. -/
def toList (t : Table ι α) : List (ι × α) :=
  t.rows.toList.zipIdx.map fun row => (RowId.ofIndex row.2, row.1)

/-! ### What the operations do to the rows -/

omit [RowId ι] in
@[simp] theorem size_push (t : Table ι α) (row : α) : (t.push row).size = t.size + 1 := by
  simp [push, size]

@[simp] theorem size_modify (t : Table ι α) (id : ι) (f : α → α) :
    (t.modify id f).size = t.size := by
  simp [modify, size]

/-- The new row answers to the next identifier, and the other rows are as before. -/
theorem get?_push (t : Table ι α) (row : α) (id : ι) :
    (t.push row).get? id = if RowId.index id = t.size then some row else t.get? id := by
  exact Array.getElem?_push

theorem eq_nextId_iff {t : Table ι α} {id : ι} : id = t.nextId ↔ RowId.index id = t.size := by
  constructor
  · rintro rfl
    exact RowId.index_ofIndex _
  · intro h
    rw [nextId, ← h, RowId.ofIndex_index]

/-- A row of an extended table is the new one or an old one. -/
theorem get?_push_cases {t : Table ι α} {row r : α} {id : ι} (h : (t.push row).get? id = some r) :
    id = t.nextId ∧ r = row ∨ t.get? id = some r := by
  rw [get?_push] at h
  split at h
  next hindex => exact .inl ⟨eq_nextId_iff.mpr hindex, (Option.some.inj h).symm⟩
  · exact .inr h

@[simp] theorem get?_push_nextId (t : Table ι α) (row : α) :
    (t.push row).get? t.nextId = some row := by
  simp [get?_push, nextId]

/-- Only the row with the given identifier changes. -/
theorem get?_modify [DecidableEq ι] (t : Table ι α) (id other : ι) (f : α → α) :
    (t.modify id f).get? other = if other = id then (t.get? other).map f else t.get? other := by
  rw [modify, get?, get?, Array.getElem?_modify]
  by_cases h : other = id
  · simp [h]
  · have hne : RowId.index id ≠ RowId.index other := fun heq => h (by
      rw [← RowId.ofIndex_index id, heq, RowId.ofIndex_index])
    simp [h, hne]

@[simp] theorem get?_nextId (t : Table ι α) : t.get? t.nextId = none := by
  simp [get?, nextId, size]

/-- An identifier has a row exactly when its index is below the number of rows. -/
theorem get?_eq_none_iff {t : Table ι α} {id : ι} : t.get? id = none ↔ t.size ≤ RowId.index id := by
  simp [get?, size]

/-- The rows are listed with their identifiers. -/
theorem mem_toList {t : Table ι α} {id : ι} {row : α} :
    (id, row) ∈ t.toList ↔ t.get? id = some row := by
  rw [toList, get?, ← Array.getElem?_toList, List.mem_map]
  constructor
  · rintro ⟨⟨found, index⟩, hmem, heq⟩
    obtain ⟨rfl, rfl⟩ := Prod.mk.inj heq
    rw [RowId.index_ofIndex]
    exact List.mem_zipIdx_iff_getElem?.mp hmem
  · intro hrow
    exact ⟨(row, RowId.index id), List.mem_zipIdx_iff_getElem?.mpr hrow, by simp⟩

end Table

end ApiSchema
