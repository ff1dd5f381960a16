import ApiSchema.Checking.Decorating
import ApiSchema.Checking.Template

/-!
# Operations and interfaces

An interface has copies of the operations of the interfaces it mixes in, and its own operations,
which take the place of mixed-in ones of the same name. Like a model it is marked as under
construction while it is checked.
-/

namespace ApiSchema.Checking

/-- Records an operation that stands on its own. -/
def recordOperation (node : NodeId) (name : String) (type : TypeId) : CheckM Unit := do
  recordDeclared ((← get).bindings.symbolOf? node) type false []
  addToNamespace ((← get).parentNamespaceType? node) fun contents =>
    { contents with operations := contents.operations.insertIfNew name type }

/-- Builds the type of an operation. Only a complete one is recorded. -/
def buildOperation (check : Check) (node : NodeId) (parts : OperationNode)
    (interface : Option TypeId) : CheckM TypeId := do
  let parent := (← get).parentNamespaceType? node
  let parameters ← check parts.parameters
  let returns ← check parts.returns
  let decorators ← checkDecorators check node
  let type ← addType (some node)
    (.operation ⟨parts.name, parent, interface, parameters, returns, decorators⟩)
  if ← shouldFinish node then
    finishType type
    if interface.isNone then
      recordOperation node parts.name type
  return type

/-- The type of an operation of an interface, or of one that stands on its own. -/
def checkOperation (check : Check) (node : NodeId) (parts : OperationNode)
    (interface : Option TypeId) : CheckM TypeId := do
  if interface.isSome then
    buildOperation check node parts interface
  else
    match (← get).declaredTypeOfNode? node with
    | some type => return type
    | none => buildOperation check node parts interface

/-- The type of an operation node: the operation of its interface that was built from it, or else
one built now. -/
def checkOperationNode (check : Check) (node : NodeId) (parts : OperationNode) :
    CheckM TypeId := do
  let tree ← getTree
  match tree.parent? node, (tree.parent? node).bind tree.kind? with
  | some parent, some (.interfaceStatement _) =>
    let interface ← check parent
    let types ← getTypes
    let named := (types.interface? interface).bind fun i => i.operations.find? parts.name
    match named.filter fun id => types.node? id = some node with
    | some existing => return existing
    | none => checkOperation check node parts (some interface)
  | _, _ => checkOperation check node parts none

/-- Copies an operation into an interface; anything else is passed on as it is. -/
def copyOperation (interface : TypeId) (finish : Bool) (source : TypeId) : CheckM TypeId := do
  match (← getTypes).operation? source with
  | none => return source
  | some operation =>
    let node := (← getTypes).node? source
    let copy ← addType node (.operation { operation with interface := some interface })
    finishIf finish copy
    return copy

/-- Adds a copy of a mixed-in operation; one of the same name is reported and replaced. -/
def mixOperation (interface : TypeId) (finish : Bool) (mixin : NodeId)
    (operations : OrderedMap String TypeId) (source : TypeId) :
    CheckM (OrderedMap String TypeId) := do
  let copy ← copyOperation interface finish source
  match (← getTypes).operation? copy with
  | none => return operations
  | some operation =>
    if operations.contains operation.name then
      report .mixinDuplicate [operation.name] (some mixin)
    return operations.insert operation.name copy

/-- Adds the operations of an interface that is mixed in. -/
def checkMixin (check : Check) (interface : TypeId) (finish : Bool)
    (operations : OrderedMap String TypeId) (mixin : NodeId) :
    CheckM (OrderedMap String TypeId) := do
  let type ← check mixin
  match (← getTypes).interface? type with
  | none =>
    if !TypeTable.isError type then
      report .mixinOfNonInterface [] (some mixin)
    return operations
  | some mixed => mixed.operations.values.foldlM (mixOperation interface finish mixin) operations

/-- Checks the own operations of an interface. `seen` are the names of those before them. -/
def checkOwnOperations (check : Check) (interface : TypeId) :
    List NodeId → List String → OrderedMap String TypeId → CheckM (OrderedMap String TypeId)
  | [], _, operations => return operations
  | member :: rest, seen, operations => do
    match (← getTree).kind? member with
    | some (.operationStatement parts) =>
      if parts.name ∈ seen then
        report .duplicateOperation [parts.name] (some member)
        checkOwnOperations check interface rest seen operations
      else
        let operation ← checkOperation check member parts (some interface)
        checkOwnOperations check interface rest (parts.name :: seen)
          (operations.insert parts.name operation)
    | _ => checkOwnOperations check interface rest seen operations

/-- Checks mixins, decorators and operations of an interface. -/
def buildInterface (check : Check) (node : NodeId) (parts : InterfaceNode) (type : TypeId) :
    CheckM Unit := do
  let finish ← shouldFinish node
  let mixed ← parts.mixins.foldlM (checkMixin check type finish) .empty
  let decorators ← checkDecorators check node
  modify fun s => s.modifyTypes fun types =>
    types.modifyInterface type fun i => { i with decorators }
  let operations ← checkOwnOperations check type parts.operations [] mixed
  modify fun s => s.modifyTypes fun types =>
    types.modifyInterface type fun i => { i with operations }
  finishIf finish type

/-- The type of an interface statement in the current context. -/
def checkInterface (check : Check) (node : NodeId) (parts : InterfaceNode) : CheckM TypeId :=
  construct node parts.templateParameters
    (fun parent arguments template =>
      .interfaceType ⟨parts.name, parent, .empty, arguments, template, []⟩)
    (buildInterface check node parts) fun type contents =>
      { contents with interfaces := contents.interfaces.insertIfNew parts.name type }

end ApiSchema.Checking
