import ApiSchema.Binding.Symbol
import ApiSchema.Syntax.Tree

/-!
# Bindings

The result of binding a program: its symbols, which node belongs to which symbol and namespace,
the names exported by files and namespaces, and the names local to declarations.
-/

namespace ApiSchema

/-- The symbols of a program and the tables that find them. -/
structure Bindings where
  symbols : Table SymbolId Symbol
  /-- The symbol that a node declares. -/
  nodeSymbols : OrderedMap NodeId SymbolId
  /-- The namespace that a declaration belongs to. -/
  namespaceSymbols : OrderedMap NodeId SymbolId
  /-- The names declared at the top level of a file. -/
  fileExports : OrderedMap NodeId SymbolTable
  /-- The names visible only inside a node: template parameters and imported names. -/
  locals : OrderedMap NodeId SymbolTable
  /-- The namespaces that the blockless namespaces of a file have opened, innermost first. -/
  openNamespaces : OrderedMap NodeId (List NodeId)
  /-- The `using` statements, in binding order. -/
  usings : List NodeId
  deriving DecidableEq

namespace Bindings

/-- Bindings without symbols. -/
def empty : Bindings := ⟨.empty, .empty, .empty, .empty, .empty, .empty, []⟩

instance : Inhabited Bindings := ⟨empty⟩

/-- The symbol of the global namespace. -/
def globalSymbol : SymbolId := ⟨0⟩

/-- The symbol with an identifier. -/
def symbol? (b : Bindings) (id : SymbolId) : Option Symbol := b.symbols.get? id

/-- The symbol that a node declares. -/
def symbolOf? (b : Bindings) (node : NodeId) : Option SymbolId := b.nodeSymbols.find? node

/-- The namespace that a declaration belongs to. -/
def namespaceOf? (b : Bindings) (node : NodeId) : Option SymbolId := b.namespaceSymbols.find? node

/-- The exports of a symbol. -/
def exports? (b : Bindings) (id : SymbolId) : Option SymbolTable :=
  (b.symbol? id).bind Symbol.exports

/-- Whether a symbol is a namespace. -/
def isNamespace (b : Bindings) (id : SymbolId) : Bool := (b.symbol? id).any Symbol.isNamespace

/-- The namespaces that a file has implicitly open, innermost first. -/
def openNamespacesOf (b : Bindings) (file : NodeId) : List NodeId :=
  (b.openNamespaces.find? file).getD []

/-- Enters a table of local names among those that are ordered by node. -/
def insertTable (entry : NodeId × SymbolTable) :
    List (NodeId × SymbolTable) → List (NodeId × SymbolTable)
  | [] => [entry]
  | first :: rest =>
    if entry.1.index ≤ first.1.index then entry :: first :: rest
    else first :: insertTable entry rest

/-- The tables of local names, ordered by the node they belong to. -/
def localTables (b : Bindings) : List (NodeId × SymbolTable) := b.locals.entries.foldr insertTable []

/-- Adds a symbol. -/
def addSymbol (symbol : Symbol) : StateM Bindings SymbolId := fun b =>
  (b.symbols.nextId, { b with symbols := b.symbols.push symbol })

/-- Changes a symbol. -/
def modifySymbol (b : Bindings) (id : SymbolId) (f : Symbol → Symbol) : Bindings :=
  { b with symbols := b.symbols.modify id f }

/-- Changes the exports of a symbol, if it has any. -/
def modifyExports (b : Bindings) (id : SymbolId) (f : SymbolTable → SymbolTable) : Bindings :=
  b.modifySymbol id fun symbol => { symbol with exports := symbol.exports.map f }

/-- Changes the local names of a node, which start out empty. -/
def modifyLocals (b : Bindings) (node : NodeId) (f : SymbolTable → SymbolTable) : Bindings :=
  { b with locals := b.locals.insert node (f ((b.locals.find? node).getD .empty)) }

/-- Makes sure that a node has a table of local names. -/
def openLocals (b : Bindings) (node : NodeId) : Bindings :=
  { b with locals := b.locals.insertIfNew node .empty }

end Bindings

end ApiSchema
