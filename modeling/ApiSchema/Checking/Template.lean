import ApiSchema.Checking.State

/-!
# Templates

A template is checked once with its parameters left open and once for each list of arguments. The
context says which instance is being checked: there a parameter stands for its argument. Types that
mention an open parameter are not complete, and decorators are not run on them.
-/

namespace ApiSchema

/-- Whether an open template parameter occurs in a type, where it is given in which of its parts one
does. -/
def TypeTable.isOpenStep (types : TypeTable) (isOpen : TypeId → Bool) (id : TypeId) : Bool :=
  match types.shape? id with
  | some .templateParameter => true
  | some (.model m) => m.templateArguments.any isOpen
  | some (.interfaceType i) => i.templateArguments.any isOpen
  | some (.array element) => isOpen element
  | some (.tuple values) => values.any isOpen
  | some (.union options) => options.any isOpen
  | _ => false

/-- Whether an open template parameter occurs in a type nested at most `depth` levels deep. -/
def TypeTable.isOpenWithin (types : TypeTable) : Nat → TypeId → Bool
  | 0 => fun _ => false
  | depth + 1 => types.isOpenStep (isOpenWithin types depth)

/-- Whether an open template parameter occurs in a type, template arguments included. -/
def TypeTable.isOpen (types : TypeTable) (id : TypeId) : Bool :=
  isOpenWithin types (types.size + 1) id

/-- The innermost declaration with template parameters around a node, the node included. -/
def Tree.templateDeclarationOf? (tree : Tree) (node : NodeId) : Option NodeId :=
  (tree.selfAndAncestors node).find? fun scope => !(tree.templateParameters scope).isEmpty

namespace Checking

namespace State

/-- Whether an instance of a template is being checked. -/
def isInstantiating (s : State) (declaration : NodeId) : Bool :=
  s.context.any fun instantiation => instantiation.declaration = declaration

/-- The type of a declaration, if it is known and no instance of the declaration is being
checked. -/
def settledType? (s : State) (declaration : NodeId) : Option TypeId :=
  if s.isInstantiating declaration then none else s.declaredTypeOfNode? declaration

/-- Whether the types built from a node are complete: the node is in no template, or in the
template of which an instance with complete arguments is being checked. -/
def shouldFinish (s : State) (tree : Tree) (node : NodeId) : Bool :=
  match tree.templateDeclarationOf? node with
  | none => true
  | some declaration =>
    s.context.any fun instantiation =>
      instantiation.declaration = declaration &&
        !instantiation.arguments.any (TypeTable.isOpen s.types)

/-- The argument that a template parameter stands for in the instance being checked. -/
def templateArgument? (s : State) (tree : Tree) (parameter : NodeId) : Option TypeId := do
  let declaration ← tree.parent? parameter
  let instantiation ← s.context
  guard (instantiation.declaration = declaration)
  let index ← (tree.templateParameters declaration).idxOf? parameter
  instantiation.arguments[index]?

end State

/-- Whether the types built from a node are complete. -/
def shouldFinish (node : NodeId) : CheckM Bool := return (← get).shouldFinish (← getTree) node

/-- The type of a template parameter: its argument, or else the parameter left open. -/
def checkTemplateParameter (parameter : NodeId) : CheckM TypeId := do
  match (← get).templateArgument? (← getTree) parameter with
  | some argument => return argument
  | none =>
    match (← get).parameterTypes.find? parameter with
    | some type => return type
    | none =>
      let type ← addType (some parameter) .templateParameter
      modify fun s => { s with parameterTypes := s.parameterTypes.insert parameter type }
      return type

/-- The arguments that tell apart the instances of a declaration: those of the instance being
checked, or else its open parameters. -/
def templateKey (declaration : NodeId) : CheckM (List TypeId) := do
  match (← get).context with
  | some instantiation =>
    if instantiation.declaration = declaration then return instantiation.arguments
    else ((← getTree).templateParameters declaration).mapM checkTemplateParameter
  | none => ((← getTree).templateParameters declaration).mapM checkTemplateParameter

/-- The type of a declaration outside any instance. -/
def checkDeclaredType (check : Check) (symbol : SymbolId) (declaration : NodeId) :
    CheckM TypeId := do
  match (← get).declaredType? symbol with
  | some type => return type
  | none => withContext none (check declaration)

/-- The instance of a template, found among the known ones and those under construction before it
is checked. -/
def instantiate (check : Check) (symbol : SymbolId) (declaration : NodeId)
    (arguments : List TypeId) : CheckM TypeId := do
  match ((← get).linksOf symbol).instances.find? arguments with
  | some type => return type
  | none =>
    match (← get).pending.find? (declaration, arguments) with
    | some type => return type
    | none =>
      let type ← withContext (some ⟨declaration, arguments⟩) (check declaration)
      modify fun s => s.modifyLinks symbol fun links =>
        { links with instances := links.instances.insert arguments type }
      return type

/-- Records the type of a declaration that was checked outside any instance; a template is its own
instance for its open parameters. -/
def recordDeclared (symbol : Option SymbolId) (type : TypeId) (isTemplate : Bool)
    (key : List TypeId) : CheckM Unit :=
  match symbol with
  | none => return ()
  | some symbol => modify fun s => s.modifyLinks symbol fun links =>
      { links with
        declaredType := type
        instances := if isTemplate then links.instances.insert key type else links.instances }

/-- The type of a model or interface statement in the current context. One that is not known is
entered with the shape `stub` and marked as under construction while `build` checks its parts. When
it is complete it is recorded and listed, unless it is an instance. -/
def construct (node : NodeId) (parameters : List NodeId)
    (stub : Option TypeId → List TypeId → Option NodeId → TypeShape) (build : TypeId → CheckM Unit)
    (list : TypeId → NamespaceType → NamespaceType) : CheckM TypeId := do
  match (← get).settledType? node with
  | some type => return type
  | none =>
    let instantiating := (← get).isInstantiating node
    let key ← templateKey node
    match (← get).pending.find? (node, key) with
    | some type => return type
    | none =>
      let type ← addType (some node) (stub ((← get).parentNamespaceType? node)
        (if instantiating then key else []) (if parameters.isEmpty then none else some node))
      modify fun s => { s with pending := s.pending.insert (node, key) type }
      build type
      if !instantiating then
        recordDeclared ((← get).bindings.symbolOf? node) type (!parameters.isEmpty) key
        addToNamespace ((← get).parentNamespaceType? node) (list type)
      modify fun s => { s with pending := s.pending.erase (node, key) }
      return type

end Checking

end ApiSchema
