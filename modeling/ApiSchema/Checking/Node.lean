import ApiSchema.Checking.Expression
import ApiSchema.Checking.Enum
import ApiSchema.Checking.Interface
import ApiSchema.Checking.Intersection
import ApiSchema.Checking.Merging
import ApiSchema.Checking.Model

/-!
# Checking nodes

The check of a node depends on its kind and calls for the checks of other nodes. `checkNode` ties
the knot, with a bound on how deeply checks are nested: a check within the bound has the same answer
for every larger bound.
-/

namespace ApiSchema.Checking

/-- The type of a namespace statement. Its decorators are run and its statements checked when it is
first met. -/
def checkNamespace (check : Check) (node : NodeId) (parts : NamespaceNode) : CheckM TypeId := do
  match ((← get).bindings.symbolOf? node).bind (← get).namespaceTypeOf? with
  | none => internalError (.untypedNamespace parts.name)
  | some type =>
    if node ∈ (← get).checkedNamespaces then
      return type
    else
      modify fun s => { s with checkedNamespaces := s.checkedNamespaces ++ [node] }
      let decorators ← checkDecorators check node
      modify fun s => s.modifyTypes fun types => types.modifyNamespace type fun contents =>
        { contents with decorators := contents.decorators ++ decorators }
      runDecorators type decorators
      parts.statements.forM fun statement => discard <| check statement
      return type

/-- The type that an alias stands for in the current context. -/
def checkAlias (check : Check) (node : NodeId) (parts : AliasNode) : CheckM TypeId := do
  match (← get).settledType? node with
  | some type => return type
  | none =>
    let instantiating := (← get).isInstantiating node
    let key ← templateKey node
    if (node, key) ∈ (← get).openAliases then
      report .recursiveAlias [parts.name] (some node)
      return TypeTable.errorType
    else
      modify fun s => { s with openAliases := (node, key) :: s.openAliases }
      let type ← check parts.value
      modify fun s => { s with openAliases := s.openAliases.erase (node, key) }
      if !instantiating then
        -- An alias that was reached again through a cycle is already known.
        let known := ((← get).declaredTypeOfNode? node).getD type
        recordAlias ((← get).bindings.symbolOf? node) known type key
      return type
where
  /-- Records the type of an alias and, for a template, the instance for its open parameters. -/
  recordAlias (symbol : Option SymbolId) (known type : TypeId) (key : List TypeId) : CheckM Unit :=
    match symbol with
    | none => return ()
    | some symbol => modify fun s => s.modifyLinks symbol fun links =>
        { links with
          declaredType := known
          instances := if parts.templateParameters.isEmpty then links.instances
            else links.instances.insert key type }

/-- The check of a node in terms of the checks of others. -/
def checkStep (check : Check) (node : NodeId) : CheckM TypeId := do
  match (← getTree).kind? node with
  | some (.modelStatement parts) => checkModel check node parts
  | some (.modelExpression members) => checkModelExpression check node members
  | some (.modelProperty parts) => checkPropertyNode check node parts
  | some (.namespaceStatement parts) => checkNamespace check node parts
  | some (.operationStatement parts) => checkOperationNode check node parts
  | some (.interfaceStatement parts) => checkInterface check node parts
  | some (.enumStatement parts) => checkEnum check node parts
  | some (.enumMember _) => checkEnumMemberNode check node
  | some (.aliasStatement parts) => checkAlias check node parts
  | some (.intrinsicStatement name) => checkIntrinsic node name
  | some (.templateParameterDeclaration _) => checkTemplateParameter node
  | some (.typeReference target arguments) => checkTypeReference check node target arguments
  | some (.unionExpression options) => checkUnion check node options
  | some (.intersectionExpression operands) => checkIntersection check node operands
  | some (.arrayExpression element) => checkArray check node element
  | some (.tupleExpression values) => checkTuple check node values
  | some (.stringLiteral value) => checkLiteral node (.string value)
  | some (.numericLiteral value) => checkLiteral node (.number value)
  | some (.booleanLiteral value) => checkLiteral node (.boolean value)
  | _ => return TypeTable.errorType

/-- The check of a node, with checks nested at most `depth` deep. -/
def checkNode : Nat → Check
  | 0 => fun _ => tooDeep
  | depth + 1 => checkStep (checkNode depth)

/-! ### Entry points -/

/-- The type of a node. -/
def typeOfNode (depth : Nat) (node : NodeId) : CheckM TypeId := do
  prepare
  checkNode depth node

/-- Checks the statements of a file; a node that is no file is left alone. -/
def checkFile (depth : Nat) (file : NodeId) : CheckM Unit := do
  prepare
  match (← getTree).kind? file with
  | some (.sourceFile _ statements) =>
    statements.forM fun statement => discard <| checkNode depth statement
  | _ => return ()

/-- Checks all files. The answer is the failure, if there was one. -/
def checkProgram (depth : Nat) : CheckM (Option CheckError) := do
  prepare
  (← getTree).files.forM (checkFile depth)
  return (← get).failure

end ApiSchema.Checking
