import ApiSchema.Binding.Bindings

/-!
# Binding a program

Every declaration becomes a symbol in the table of the scope it stands in. A namespace that is
opened again in the same table shares its symbol. A blockless namespace captures the statements
that follow it in its file, and it and the namespaces around it become implicitly open there.
-/

namespace ApiSchema

/-- Where declarations go. -/
inductive BindingScope where
  /-- The top level of a file: declarations are exports of the file and belong to the global
  namespace. -/
  | file (file : NodeId)
  /-- A namespace: declarations are exports of its symbol. -/
  | namespaceScope (symbol : SymbolId)
  deriving DecidableEq

/-- The namespace that declarations of a scope belong to. -/
def BindingScope.owner : BindingScope → SymbolId
  | .file _ => Bindings.globalSymbol
  | .namespaceScope symbol => symbol

namespace Bindings

/-- The table that receives the declarations of a scope. -/
def scopeTable? (b : Bindings) : BindingScope → Option SymbolTable
  | .file file => b.fileExports.find? file
  | .namespaceScope symbol => b.exports? symbol

/-- Claims a name in the table of a scope. -/
def claim (b : Bindings) (scope : BindingScope) (name : String) (symbol : SymbolId) : Bindings :=
  match scope with
  | .file file =>
    let table := (b.fileExports.find? file).getD .empty
    { b with fileExports := b.fileExports.insert file (table.set name symbol) }
  | .namespaceScope owner => b.modifyExports owner fun table => table.set name symbol

/-- Records the symbol that a node declares. -/
def recordNode (b : Bindings) (node : NodeId) (symbol : SymbolId) : Bindings :=
  { b with nodeSymbols := b.nodeSymbols.insert node symbol }

/-- Records the namespace that a declaration belongs to. -/
def recordNamespace (b : Bindings) (node : NodeId) (owner : SymbolId) : Bindings :=
  { b with namespaceSymbols := b.namespaceSymbols.insert node owner }

/-- The namespace that a scope already has under a name. -/
def reopened? (b : Bindings) (scope : BindingScope) (name : String) : Option SymbolId :=
  ((b.scopeTable? scope).bind fun table => table.find? name).filter b.isNamespace

/-- Declares a new symbol in a scope. -/
def declareNew (scope : BindingScope) (name : String) (kind : SymbolKind) (node : NodeId) :
    StateM Bindings SymbolId := do
  let symbol ← addSymbol (.make name kind [node] (some scope.owner))
  modify fun b => (b.recordNode node symbol).claim scope name symbol
  return symbol

/-- Declares what a node stands for. A namespace whose name the scope already has for a namespace
becomes a further declaration of that namespace. -/
def declare (scope : BindingScope) (name : String) (kind : SymbolKind) (node : NodeId) :
    StateM Bindings SymbolId := do
  modify fun b => b.recordNamespace node scope.owner
  match kind with
  | .namespaceKind =>
    match (← get).reopened? scope name with
    | some existing =>
      modify fun b => (b.modifySymbol existing fun symbol =>
        { symbol with declarations := symbol.declarations ++ [node] }).recordNode node existing
      return existing
    | none => declareNew scope name kind node
  | _ => declareNew scope name kind node

/-- Declares the template parameters of a declaration as its local names. -/
def bindTemplateParameters (tree : Tree) (declaration : NodeId) (parameters : List NodeId) :
    StateM Bindings Unit :=
  parameters.forM fun parameter => do
    match tree.kind? parameter with
    | some (.templateParameterDeclaration name) =>
      let symbol ← addSymbol
        (.make name .templateParameter [parameter] ((← get).namespaceOf? declaration))
      modify fun b => (b.recordNode parameter symbol).modifyLocals declaration fun table =>
        table.set name symbol
    | _ => return ()

/-- A blockless namespace that was met: its symbol and its node. -/
structure Blockless where
  symbol : SymbolId
  node : NodeId

/-- Binds a statement and whatever namespaces nested up to `depth` deep contain. The answer is the
last blockless namespace met, whose own body is not bound. -/
def bindStatement (tree : Tree) : Nat → BindingScope → NodeId → StateM Bindings (Option Blockless)
  | 0, _, _ => return none
  | depth + 1, scope, statement => do
    match tree.kind? statement with
    | some (.namespaceStatement parts) =>
      let symbol ← declare scope parts.name .namespaceKind statement
      modify fun b => b.openLocals statement
      if parts.blockless then
        return some ⟨symbol, statement⟩
      else
        parts.statements.foldlM (fun found inner => do
          let next ← bindStatement tree depth (.namespaceScope symbol) inner
          return next.or found) none
    | some (.usingStatement _) =>
      modify fun b => { b with usings := b.usings ++ [statement] }
      return none
    | some (.modelStatement parts) =>
      discard <| declare scope parts.name .model statement
      bindTemplateParameters tree statement parts.templateParameters
      return none
    | some (.interfaceStatement parts) =>
      discard <| declare scope parts.name .interfaceKind statement
      bindTemplateParameters tree statement parts.templateParameters
      parts.operations.forM fun operation =>
        modify fun b => b.recordNamespace operation scope.owner
      return none
    | some (.aliasStatement parts) =>
      discard <| declare scope parts.name .aliasKind statement
      bindTemplateParameters tree statement parts.templateParameters
      return none
    | some (.operationStatement parts) =>
      discard <| declare scope parts.name .operation statement
      return none
    | some (.enumStatement parts) =>
      discard <| declare scope parts.name .enumKind statement
      return none
    | some (.intrinsicStatement name) =>
      discard <| declare scope name .intrinsic statement
      return none
    | _ => return none

/-- A namespace node and the namespaces around it inside the file, innermost first. -/
def namespaceChain (tree : Tree) (file node : NodeId) : List NodeId :=
  ((tree.selfAndAncestors node).takeWhile fun scope => scope ≠ file).filter tree.isNamespace

/-- Binds a statement of a file. The answer is the scope of the statements after it. -/
def bindFileStatement (tree : Tree) (file : NodeId) (scope : BindingScope) (statement : NodeId) :
    StateM Bindings BindingScope := do
  match ← bindStatement tree tree.size scope statement with
  | none => return scope
  | some blockless =>
    modify fun b => { b with
      openNamespaces := b.openNamespaces.insert file
        (b.openNamespacesOf file ++ namespaceChain tree file blockless.node) }
    return .namespaceScope blockless.symbol

/-- Binds the statements of a file from left to right; those after a blockless namespace are bound
into it. -/
def bindStatements (tree : Tree) (file : NodeId) (statements : List NodeId) :
    StateM Bindings Unit :=
  discard <| statements.foldlM (bindFileStatement tree file) (.file file)

/-- Binds a file; a node that is no file is left alone. -/
def bindFile (tree : Tree) (file : NodeId) : StateM Bindings Unit := do
  match tree.kind? file with
  | some (.sourceFile _ statements) =>
    modify fun b => { b with fileExports := b.fileExports.insertIfNew file .empty }
    modify fun b => b.openLocals file
    bindStatements tree file statements
  | _ => return ()

/-- Binds the global namespace and the intrinsic types. -/
def bindGlobalNamespace (tree : Tree) : StateM Bindings Unit := do
  let symbol ← addSymbol (.make "" .namespaceKind [Tree.globalNamespace] none)
  modify fun b => b.recordNode Tree.globalNamespace symbol
  (tree.children Tree.globalNamespace).forM fun statement =>
    discard <| bindStatement tree tree.size (.namespaceScope symbol) statement

/-- The bindings of the global namespace and the intrinsic types. -/
def initial (tree : Tree) : Bindings := ((bindGlobalNamespace tree).run empty).2

/-- The bindings after binding a list of files in order. -/
def ofFiles (tree : Tree) (files : List NodeId) : Bindings :=
  ((files.forM (bindFile tree)).run (initial tree)).2

/-- The bindings of a whole program. -/
def ofTree (tree : Tree) : Bindings := ofFiles tree tree.files

/-- The name under which a decorator is found; types are found without the mark. -/
def decoratorKey (name : String) : String := "@" ++ name

/-- The namespace that a decorator with the given path belongs to: the global one for a path of one
segment, else the first namespace statement written as the segments before the last. -/
def decoratorOwner? (b : Bindings) (tree : Tree) (path : String) : Option SymbolId :=
  match (DottedPath.splitLast path).1 with
  | [] => some globalSymbol
  | outer => (tree.findNamespace? (DottedPath.join outer)).bind b.symbolOf?

/-- Declares a decorator that a library supplies, if its namespace is bound. -/
def declareDecorator (tree : Tree) (path : String) : StateM Bindings (Option SymbolId) := do
  match (← get).decoratorOwner? tree path with
  | none => return none
  | some owner =>
    let key := decoratorKey (DottedPath.lastSegment path)
    let symbol ← addSymbol (.make key (.decorator path) [] (some owner))
    modify fun b => b.modifyExports owner fun table => table.set key symbol
    return some symbol

end Bindings

end ApiSchema
