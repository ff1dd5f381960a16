import ApiSchema.Data.Table

/-!
# Interned text

An interner numbers the distinct texts it is given by first appearance. Equal texts get equal
handles, and a handle gives its text back.
-/

namespace ApiSchema

/-- Identifies an interned text. -/
structure Handle where
  /-- The position of the text among the interned ones. -/
  index : Nat
  deriving DecidableEq, Inhabited

instance : RowId Handle := ⟨.mk, Handle.index, fun _ => rfl, fun _ => rfl⟩

/-- The distinct texts seen so far. -/
structure Interner where
  /-- The texts by handle. -/
  texts : Table Handle String
  deriving DecidableEq

namespace Interner

/-- The interner that has seen no text. -/
def empty : Interner := ⟨Table.empty⟩

/-- The number of distinct texts. -/
def size (i : Interner) : Nat := i.texts.size

/-- The handle of a text that was interned before. -/
def find? (i : Interner) (text : String) : Option Handle :=
  (i.texts.rows.finIdxOf? text).map fun position => ⟨position.val⟩

/-- The text of a handle. -/
def resolve? (i : Interner) (handle : Handle) : Option String := i.texts.get? handle

/-- The handle of a text, which is added if it is new. -/
def intern (i : Interner) (text : String) : Handle × Interner :=
  match i.find? text with
  | some handle => (handle, i)
  | none => (i.texts.nextId, ⟨i.texts.push text⟩)

/-- Interns each text of a list in turn. -/
def internAll (i : Interner) (texts : List String) : Interner :=
  texts.foldl (fun interner text => (interner.intern text).2) i

/-- An interner is written as the number of its texts. -/
def render (i : Interner) : String := "StringInterner \x7b len: " ++ toString i.size ++ " \x7d"

end Interner

end ApiSchema
