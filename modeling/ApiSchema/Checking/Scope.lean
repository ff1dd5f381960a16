import ApiSchema.Checking.State

/-!
# Scopes

A name is looked up in the tables visible at a node, from the inside out: at each enclosing
namespace its exports and then the names imported there, at each template declaration its
parameters, then the namespaces that the file has implicitly open, the global namespace, and last
the names that the file imports.
-/

namespace ApiSchema.Checking.State

variable (s : State) (tree : Tree)

/-- The exports of a namespace, gathered from all files. -/
def mergedExports? (symbol : SymbolId) : Option SymbolTable :=
  s.bindings.exports? (s.mergedSymbol symbol)

/-- The exports of the namespace that a namespace statement belongs to. -/
def exportsOfNode (node : NodeId) : List SymbolTable :=
  ((s.bindings.symbolOf? node).bind s.mergedExports?).toList

/-- The local names of a node. -/
def localsOf (node : NodeId) : List SymbolTable := (s.bindings.locals.find? node).toList

/-- The tables that an enclosing node makes visible, the nearer first. -/
def tablesOfScope (scope : NodeId) : List SymbolTable :=
  match tree.kind? scope with
  | some (.namespaceStatement _) => s.exportsOfNode scope ++ s.localsOf scope
  | some kind => if kind.templateParameters.isEmpty then [] else s.localsOf scope
  | none => []

/-- The tables visible at a node, the nearest first. -/
def visibleTables (node : NodeId) : List SymbolTable :=
  let around := tree.ancestors node
  let file := around.find? tree.isSourceFile
  (around.takeWhile fun scope => !tree.isSourceFile scope).flatMap (s.tablesOfScope tree) ++
    file.toList.flatMap (fun f => (s.bindings.openNamespacesOf f).flatMap s.exportsOfNode) ++
    (s.mergedExports? Bindings.globalSymbol).toList ++
    file.toList.flatMap s.localsOf

/-- The symbol that a name stands for at a node. -/
def resolve? (node : NodeId) (key : String) : Option SymbolId :=
  (s.visibleTables tree node).findSome? fun table => table.find? key

end ApiSchema.Checking.State
