import ApiSchema.Checking.Template
import ApiSchema.Checking.Resolution

/-!
# Expressions

The types of literals, references, unions, arrays and tuples. A literal has one type wherever it
occurs, and a union lists the options of the unions among its options in their place.
-/

namespace ApiSchema.Checking

/-- The type of a literal. -/
def checkLiteral (node : NodeId) (literal : Literal) : CheckM TypeId := do
  match (← get).literalTypes.find? literal with
  | some type => return type
  | none =>
    let type ← addType (some node) literal.shape
    modify fun s => { s with literalTypes := s.literalTypes.insert literal type }
    return type

/-- The type of an intrinsic declaration. -/
def checkIntrinsic (node : NodeId) (name : String) : CheckM TypeId := do
  match (← get).declaredTypeOfNode? node with
  | some type => return type
  | none =>
    let type ← addType (some node) (.intrinsic name)
    match (← get).bindings.symbolOf? node with
    | none => return type
    | some symbol =>
      modify fun s => s.modifyLinks symbol fun links => { links with declaredType := type }
      return type

/-- The options that an operand contributes to a union. -/
def checkOption (check : Check) (option : NodeId) : CheckM (List TypeId) := do
  let type ← check option
  return ((← getTypes).union? type).getD [type]

/-- The type of a union. -/
def checkUnion (check : Check) (node : NodeId) (options : List NodeId) : CheckM TypeId := do
  let options ← options.mapM (checkOption check)
  addType (some node) (.union options.flatten)

/-- The type of an array. -/
def checkArray (check : Check) (node element : NodeId) : CheckM TypeId := do
  let element ← check element
  addType (some node) (.array element)

/-- The type of a tuple. -/
def checkTuple (check : Check) (node : NodeId) (values : List NodeId) : CheckM TypeId := do
  let values ← values.mapM check
  addType (some node) (.tuple values)

/-- Reports a wrong number of template arguments, fills up with the error type and leaves out what
is too much. -/
def fitArguments (node : NodeId) (count : Nat) (arguments : List TypeId) :
    CheckM (List TypeId) := do
  if arguments.length < count then
    report .tooFewTemplateArguments [] (some node)
    return arguments ++ List.replicate (count - arguments.length) TypeTable.errorType
  else if count < arguments.length then
    report .tooManyTemplateArguments [] (some node)
    return arguments.take count
  else
    return arguments

/-- The type of what a reference without template arguments refers to. -/
def checkReferent (check : Check) (symbol : SymbolId) (kind : SymbolKind) (declaration : NodeId) :
    CheckM TypeId := do
  match kind with
  | .templateParameter => checkTemplateParameter declaration
  | .namespaceKind =>
    match (← get).namespaceTypeOf? symbol with
    | some type => return type
    | none => check declaration
  | _ => checkDeclaredType check symbol declaration

/-- The type of a reference to a template: the instance for its arguments. The template itself is
checked first. -/
def checkTemplateReference (check : Check) (node : NodeId) (symbol : SymbolId)
    (declaration : NodeId) (given : List TypeId) : CheckM TypeId := do
  discard <| checkDeclaredType check symbol declaration
  let count := ((← getTree).templateParameters declaration).length
  let fitted ← fitArguments node count given
  let type ← instantiate check symbol declaration fitted
  noteReference ⟨node, declaration, fitted, type⟩
  return type

/-- The type of a reference to what has no template parameters. -/
def checkPlainReference (check : Check) (node : NodeId) (symbol : SymbolId) (kind : SymbolKind)
    (declaration : NodeId) (given : List TypeId) : CheckM TypeId := do
  let type ← checkReferent check symbol kind declaration
  noteReference ⟨node, declaration, [], type⟩
  if !given.isEmpty then
    report .argumentsOnNonTemplate [] (some node)
  return type

/-- The type of a reference to a declared symbol with the given template arguments. -/
def checkDeclaredReference (check : Check) (node : NodeId) (symbol : SymbolId) (kind : SymbolKind)
    (declaration : NodeId) (given : List TypeId) : CheckM TypeId := do
  if kind.isTemplatable && !((← getTree).templateParameters declaration).isEmpty then
    checkTemplateReference check node symbol declaration given
  else
    checkPlainReference check node symbol kind declaration given

/-- The type of a reference. The template arguments are checked before what it refers to. -/
def checkTypeReference (check : Check) (node target : NodeId) (arguments : List NodeId) :
    CheckM TypeId := do
  match ← resolveReference target .type with
  | none => return TypeTable.errorType
  | some id =>
    match (← get).bindings.symbol? id with
    | none => return TypeTable.errorType
    | some symbol =>
      if symbol.isDecorator then
        report .decoratorAsType [] (some node)
        return TypeTable.errorType
      else
        match symbol.node? with
        | none => internalError (.undeclaredSymbol id.label)
        | some declaration =>
          let given ← arguments.mapM check
          checkDeclaredReference check node id symbol.kind declaration given

end ApiSchema.Checking
