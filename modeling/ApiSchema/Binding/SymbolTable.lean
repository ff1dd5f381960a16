import ApiSchema.Data.Id
import ApiSchema.Data.OrderedMap

/-!
# Symbol tables

A symbol table binds names to symbols and remembers every name that more than one symbol has
claimed, with its claimants. `set` lets the first claim win, `overwrite` the last.
-/

namespace ApiSchema

/-- The names bound in a scope and the names claimed more than once. -/
structure SymbolTable where
  /-- The bindings, in the order in which the names were first bound. -/
  bound : OrderedMap String SymbolId
  /-- The claimants of the contested names. -/
  duplicates : OrderedMap String (List SymbolId)
  deriving DecidableEq

namespace SymbolTable

/-- The table that binds nothing. -/
def empty : SymbolTable := ⟨.empty, .empty⟩

instance : Inhabited SymbolTable := ⟨empty⟩

/-- The symbol bound to a name. -/
def find? (table : SymbolTable) (name : String) : Option SymbolId := table.bound.find? name

/-- Whether a name is bound. -/
def contains (table : SymbolTable) (name : String) : Bool := table.bound.contains name

/-- The number of bound names. -/
def size (table : SymbolTable) : Nat := table.bound.size

/-- Whether no name is bound. -/
def isEmpty (table : SymbolTable) : Bool := table.bound.isEmpty

/-- Whether some name is contested. -/
def hasDuplicates (table : SymbolTable) : Bool := !table.duplicates.isEmpty

/-- Adds those symbols of a list that do not occur yet. -/
def addClaimants (claimants symbols : List SymbolId) : List SymbolId :=
  symbols.foldl (fun known symbol => if symbol ∈ known then known else known ++ [symbol]) claimants

/-- Records that all of `symbols` claim a name. -/
def recordDuplicates (table : SymbolTable) (name : String) (symbols : List SymbolId) :
    SymbolTable :=
  let claimants := (table.duplicates.find? name).getD []
  { table with duplicates := table.duplicates.insert name (addClaimants claimants symbols) }

/-- Whether `set` leaves the name bound to this symbol. -/
def admits (table : SymbolTable) (name : String) (symbol : SymbolId) : Bool :=
  match table.find? name with
  | none => true
  | some existing => existing = symbol

/-- Binds a name to a symbol unless another symbol has it; then both are recorded as claimants. -/
def set (table : SymbolTable) (name : String) (symbol : SymbolId) : SymbolTable :=
  match table.find? name with
  | none => { table with bound := table.bound.insert name symbol }
  | some existing =>
    if existing = symbol then table else table.recordDuplicates name [existing, symbol]

/-- Binds a name to a symbol; a different symbol that had it is recorded as a claimant too. -/
def overwrite (table : SymbolTable) (name : String) (symbol : SymbolId) : SymbolTable :=
  let bound := { table with bound := table.bound.insert name symbol }
  match table.find? name with
  | none => bound
  | some existing =>
    if existing = symbol then bound else bound.recordDuplicates name [existing, symbol]

end SymbolTable

end ApiSchema
