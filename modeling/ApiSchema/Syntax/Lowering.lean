import ApiSchema.Syntax.Statement
import ApiSchema.Syntax.Tree

/-!
# From statements to nodes

`Tree.addFile` adds the nodes of a described file to the tree. Each description is added after the
descriptions it contains and begins at the position of the first of them. A dotted path becomes a
chain of member expressions, and a namespace with a dotted name a chain of nested namespaces, of
which the innermost carries the body, the decorators and the blockless mark.
-/

namespace ApiSchema.Tree

/-- The position at which the next node begins. -/
def position : StateM Tree Nat := do return (← get).size

/-- Adds a reference to a dotted path. -/
def addPath (path : String) : StateM Tree NodeId := do
  let start ← position
  match DottedPath.segments path with
  | [] => addNode start (.identifier "")
  | first :: rest =>
    let root ← addNode start (.identifier first)
    rest.foldlM (fun base member => addNode start (.memberExpression base member)) root

/-- Adds the declarations of template parameters. -/
def addTemplateParameters (names : List String) : StateM Tree (List NodeId) :=
  names.mapM fun name => do addNode (← position) (.templateParameterDeclaration name)

mutual

/-- Adds an expression. -/
def addExpr : Expr → StateM Tree NodeId
  | .reference path arguments => do
    let start ← position
    let target ← addPath path
    let arguments ← addExprs arguments
    addNode start (.typeReference target arguments)
  | .model members => do
    let start ← position
    let members ← addMembers members
    addNode start (.modelExpression members)
  | .union options => do
    let start ← position
    let options ← addExprs options
    addNode start (.unionExpression options)
  | .intersection operands => do
    let start ← position
    let operands ← addExprs operands
    addNode start (.intersectionExpression operands)
  | .array element => do
    let start ← position
    let element ← addExpr element
    addNode start (.arrayExpression element)
  | .tuple values => do
    let start ← position
    let values ← addExprs values
    addNode start (.tupleExpression values)
  | .string value => do addNode (← position) (.stringLiteral value)
  | .number value => do addNode (← position) (.numericLiteral value)
  | .boolean value => do addNode (← position) (.booleanLiteral value)

/-- Adds expressions one after the other. -/
def addExprs : List Expr → StateM Tree (List NodeId)
  | [] => return []
  | expr :: rest => do
    let id ← addExpr expr
    let ids ← addExprs rest
    return id :: ids

/-- Adds an expression that may be missing. -/
def addOptionalExpr : Option Expr → StateM Tree (Option NodeId)
  | none => return none
  | some expr => do
    let id ← addExpr expr
    return some id

/-- Adds a member of a model. -/
def addMember : Member → StateM Tree NodeId
  | .property name optional type defaultValue decorations => do
    let start ← position
    let decorators ← addDecorations decorations
    let value ← addExpr type
    let defaultValue ← addOptionalExpr defaultValue
    addNode start (.modelProperty ⟨name, optional, value, defaultValue, decorators⟩)
  | .spread target => do
    let start ← position
    let target ← addExpr target
    addNode start (.modelSpreadProperty target)

/-- Adds members one after the other. -/
def addMembers : List Member → StateM Tree (List NodeId)
  | [] => return []
  | member :: rest => do
    let id ← addMember member
    let ids ← addMembers rest
    return id :: ids

/-- Adds an applied decorator. -/
def addDecoration : Decoration → StateM Tree NodeId
  | .mk path arguments => do
    let start ← position
    let target ← addPath path
    let arguments ← addExprs arguments
    addNode start (.decoratorExpression target arguments)

/-- Adds applied decorators one after the other. -/
def addDecorations : List Decoration → StateM Tree (List NodeId)
  | [] => return []
  | decoration :: rest => do
    let id ← addDecoration decoration
    let ids ← addDecorations rest
    return id :: ids

end

/-- Adds an operation, whose parameters form a model expression. -/
def addOperation (operation : Operation) : StateM Tree NodeId := do
  let start ← position
  let decorators ← addDecorations operation.decorations
  let parameters ← addExpr (.model operation.parameters)
  let returns ← addExpr operation.returns
  addNode start (.operationStatement ⟨operation.name, parameters, returns, decorators⟩)

/-- Adds a member of an enum. -/
def addEnumMember (member : EnumMember) : StateM Tree NodeId := do
  let start ← position
  let decorators ← addDecorations member.decorations
  let value ← addOptionalExpr member.value
  addNode start (.enumMember ⟨member.name, value, decorators⟩)

/-- Wraps a namespace node in namespaces with the given names, the last name innermost. -/
def wrapNamespace (start : Nat) (names : List String) (innermost : NodeId) : StateM Tree NodeId :=
  names.reverse.foldlM
    (fun inner name => addNode start (.namespaceStatement ⟨name, [inner], false, []⟩)) innermost

mutual

/-- Adds a statement. -/
def addStatement : Statement → StateM Tree NodeId
  | .modelDecl name parameters base copied members decorations => do
    let start ← position
    let decorators ← addDecorations decorations
    let parameters ← addTemplateParameters parameters
    let base ← addOptionalExpr base
    let copied ← addOptionalExpr copied
    let members ← addMembers members
    addNode start (.modelStatement ⟨name, parameters, base, copied, members, decorators⟩)
  | .namespaceDecl path blockless body decorations => do
    let start ← position
    let (outer, innermost) := DottedPath.splitLast path
    let decorators ← addDecorations decorations
    let statements ← addStatements body
    let inner ← addNode start (.namespaceStatement ⟨innermost, statements, blockless, decorators⟩)
    wrapNamespace start outer inner
  | .usingDecl path => do
    let start ← position
    let target ← addPath path
    addNode start (.usingStatement target)
  | .operationDecl operation => addOperation operation
  | .interfaceDecl name parameters mixins operations decorations => do
    let start ← position
    let decorators ← addDecorations decorations
    let parameters ← addTemplateParameters parameters
    let mixins ← addExprs mixins
    let operations ← operations.mapM addOperation
    addNode start (.interfaceStatement ⟨name, parameters, mixins, operations, decorators⟩)
  | .enumDecl name members decorations => do
    let start ← position
    let decorators ← addDecorations decorations
    let members ← members.mapM addEnumMember
    addNode start (.enumStatement ⟨name, members, decorators⟩)
  | .aliasDecl name parameters value => do
    let start ← position
    let parameters ← addTemplateParameters parameters
    let value ← addExpr value
    addNode start (.aliasStatement ⟨name, parameters, value⟩)

/-- Adds statements one after the other. -/
def addStatements : List Statement → StateM Tree (List NodeId)
  | [] => return []
  | statement :: rest => do
    let id ← addStatement statement
    let ids ← addStatements rest
    return id :: ids

end

/-- Adds a file to the tree. -/
def addFile (file : SourceFile) : StateM Tree NodeId := do
  let start ← position
  let statements ← addStatements file.body
  let id ← addNode start (.sourceFile file.name statements)
  modify fun tree => { tree with files := tree.files ++ [id] }
  return id

/-- The tree of a list of files. -/
def ofFiles (files : List SourceFile) : Tree := ((files.mapM addFile).run initial).2

end ApiSchema.Tree
