import ApiSchema.Checking.Resolution

/-!
# Merging files

Each file has its own namespace symbols. Before anything is checked the exports of all files are
merged into the global namespace: all reopenings of a namespace share one symbol, whose exports
hold the names of every reopening. Then `using` statements are carried out, contested names are
reported, and every namespace gets its type.
-/

namespace ApiSchema.Checking

namespace State

/-- Adds those nodes of a list that do not occur yet. -/
def joinNodes (known more : List NodeId) : List NodeId :=
  more.foldl (fun known node => if node ∈ known then known else known ++ [node]) known

/-- Adds the declarations of a reopening to the symbol that stands for the namespace. -/
def joinDeclarations (s : State) (canonical : SymbolId) (declarations : List NodeId) : State :=
  { s with
    bindings := s.bindings.modifySymbol canonical fun symbol =>
      { symbol with declarations := joinNodes symbol.declarations declarations } }

/-- Adds a symbol that stands for a namespace in all files, as an export of `target`. A name that
something else has there goes to the namespace. -/
def addCanonical (s : State) (target : SymbolId) (name : String) (symbol : Symbol) :
    SymbolId × State :=
  let (canonical, bindings) :=
    Bindings.addSymbol (.make symbol.name symbol.kind symbol.declarations (some target)) s.bindings
  (canonical, { s with
    bindings := bindings.modifyExports target fun table => table.overwrite name canonical })

/-- The symbol that stands for a namespace in all files: the namespace of that name which `target`
already exports, or else a new one. -/
def canonicalFor (s : State) (target : SymbolId) (name : String) (symbol : Symbol) :
    SymbolId × State :=
  match ((s.bindings.exports? target).bind fun table => table.find? name).filter
      s.bindings.isNamespace with
  | some existing => (existing, s.joinDeclarations existing symbol.declarations)
  | none => s.addCanonical target name symbol

/-- Finds the symbol that stands for a namespace in all files, and remembers it. -/
def enterNamespace (s : State) (target : SymbolId) (entry : String × SymbolId) (symbol : Symbol) :
    SymbolId × State :=
  let canonical := s.canonicalFor target entry.1 symbol
  (canonical.1, { canonical.2 with
    mergedSymbols := canonical.2.mergedSymbols.insert entry.2 canonical.1 })

/-- Merges one export into the exports of `target`. The exports of a namespace are merged by
`mergeNested`. -/
def mergeEntry (mergeNested : State → SymbolTable → SymbolId → State) (target : SymbolId)
    (s : State) (entry : String × SymbolId) : State :=
  match s.bindings.symbol? entry.2 with
  | none => s
  | some symbol =>
    if symbol.isNamespace then
      let entered := s.enterNamespace target entry symbol
      match symbol.exports with
      | none => entered.2
      | some exports => mergeNested entered.2 exports entered.1
    else
      { s with bindings := s.bindings.modifyExports target fun table =>
          table.set entry.1 entry.2 }

/-- Merges a table of exports, with namespaces nested at most `depth` deep, into the exports of
`target`. -/
def mergeTable : Nat → State → SymbolTable → SymbolId → State
  | 0, s, _, _ => s
  | depth + 1, s, source, target =>
    let merged := source.bound.entries.foldl (mergeEntry (mergeTable depth) target) s
    { merged with
      bindings := merged.bindings.modifyExports target fun table =>
        source.duplicates.entries.foldl
          (fun table entry => table.recordDuplicates entry.1 entry.2) table }

/-- Merges the exports of a file into the global namespace. Namespaces are nested less deeply than
there are symbols. -/
def mergeFile (s : State) (file : NodeId) : State :=
  match s.bindings.fileExports.find? file with
  | none => s
  | some exports => mergeTable (s.bindings.symbols.size + 1) s exports Bindings.globalSymbol

/-- Merges the exports of the given files into the global namespace, file by file. -/
def mergeFiles (s : State) (files : List NodeId) : State := files.foldl mergeFile s

/-- The names that are claimed by more than one symbol, with the claimants: first in namespaces,
by symbol, then among local names, by node. -/
def contestedNames (s : State) : List (List SymbolId) :=
  let exported := s.bindings.symbols.toList.flatMap fun row =>
    if row.2.isNamespace && s.mergedSymbol row.1 = row.1 then
      (row.2.exports.map fun table => table.duplicates.values).getD []
    else []
  exported ++ s.bindings.localTables.flatMap fun entry => entry.2.duplicates.values

end State

/-- Imports the names of a namespace into the scope that a `using` statement stands in. -/
def importNames (owner : NodeId) (exports : SymbolTable) : CheckM Unit :=
  modify fun s => { s with bindings := s.bindings.modifyLocals owner fun table =>
    exports.bound.entries.foldl (fun table entry => table.set entry.1 entry.2) table }

/-- Carries out a `using` statement. -/
def checkUsing (statement : NodeId) : CheckM Unit := do
  match (← getTree).kind? statement with
  | some (.usingStatement target) =>
    match ← resolveReference target .type with
    | none => return ()
    | some id =>
      match (← get).bindings.symbol? id with
      | none => return ()
      | some symbol =>
        if symbol.isDecorator then
          report .usingOfDecorator [] (some statement)
        else if !symbol.isNamespace then
          report .usingOfNonNamespace [] (some statement)
        else
          match (← get).mergedExports? id, (← getTree).parent? statement with
          | some exports, some owner => importNames owner exports
          | _, _ => return ()
  | _ => return ()

/-- Reports every symbol that claims a contested name, once. -/
def reportContestedNames : CheckM Unit := do
  let claimants := (← get).contestedNames.flatten.eraseDups
  claimants.forM fun id => do
    match (← get).bindings.symbol? id with
    | none => return ()
    | some symbol => report .duplicateName [symbol.name] symbol.declarations.head?

/-- Gives a namespace statement a type, unless another statement of the namespace has done so. -/
def createNamespaceType (node : NodeId) (name : String) : CheckM Unit := do
  match (← get).bindings.symbolOf? node with
  | none => return ()
  | some symbol =>
    if ((← get).namespaceTypeOf? symbol).isSome then
      return ()
    else
      match (← get).parentNamespaceType? node with
      | none => discard <| internalError (.untypedParent name)
      | some parent =>
        let type ← addType (some node) (.namespaceType (NamespaceType.make name (some parent)))
        let canonical := (← get).mergedSymbol symbol
        modify fun s => s.modifyLinks canonical fun links => { links with namespaceType := type }
        addToNamespace (some parent) fun contents =>
          { contents with namespaces := contents.namespaces.insertIfNew name type }

/-- The namespace statements of all files, each before those inside it. -/
def namespaceStatements (tree : Tree) : List (NodeId × String) :=
  (tree.files.flatMap tree.walk).filterMap fun node =>
    match tree.kind? node with
    | some (.namespaceStatement parts) =>
      if node = Tree.globalNamespace then none else some (node, parts.name)
    | _ => none

/-- Gives every namespace of the files a type. -/
def createNamespaceTypes : CheckM Unit := do
  (namespaceStatements (← getTree)).forM fun entry => createNamespaceType entry.1 entry.2

/-- Merges the files, once. -/
def prepare : CheckM Unit := do
  if (← get).initialized then
    return ()
  else
    let files := (← getTree).files
    modify fun s => State.mergeFiles { s with initialized := true } files
    (← get).bindings.usings.forM checkUsing
    reportContestedNames
    createNamespaceTypes

end ApiSchema.Checking
