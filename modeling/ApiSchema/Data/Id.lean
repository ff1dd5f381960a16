import ApiSchema.Data.Table

/-!
# Identifiers of nodes, symbols and types

Every syntax node, symbol and type is a row of a table and is referred to by its identifier.
-/

namespace ApiSchema

/-- Identifies a syntax node. -/
structure NodeId where
  /-- The index of the node in the syntax tree. -/
  index : Nat
  deriving DecidableEq, Inhabited

/-- Identifies a symbol. -/
structure SymbolId where
  /-- The index of the symbol in the symbol list. -/
  index : Nat
  deriving DecidableEq, Inhabited

/-- Identifies a type. -/
structure TypeId where
  /-- The index of the type in the type table. -/
  index : Nat
  deriving DecidableEq, Inhabited

instance : RowId NodeId := ⟨.mk, NodeId.index, fun _ => rfl, fun _ => rfl⟩

instance : RowId SymbolId := ⟨.mk, SymbolId.index, fun _ => rfl, fun _ => rfl⟩

instance : RowId TypeId := ⟨.mk, TypeId.index, fun _ => rfl, fun _ => rfl⟩

/-- The way an identifier of a symbol is written in messages. -/
def SymbolId.label (id : SymbolId) : String := "SymbolId(" ++ toString id.index ++ ")"

/-- The way an identifier of a type is written. -/
def TypeId.label (id : TypeId) : String := "TypeId(" ++ toString id.index ++ ")"

end ApiSchema
