import ApiSchema.Checking.Property

/-!
# Models

A model statement is entered into the type table before its heritage and members are checked, and
is marked as under construction, so that a reference to the model from inside it finds it. A model
can extend a base model and can copy another model with `is`; neither may lead back to itself.
-/

namespace ApiSchema.Checking

/-- The model that a model extends or copies, which has to be one that does not lead back to it. -/
def admitHeritage (complaint : Message) (model : TypeId) (node : NodeId) (source : TypeId) :
    CheckM (Option TypeId) := do
  let types ← getTypes
  match types.shape? source with
  | some .templateParameter => return none
  | some (.model _) =>
    if model ∈ types.baseChain source then
      report .recursiveBase [types.display (← getTree) model] (some node)
      return none
    else
      return some source
  | _ =>
    if !TypeTable.isError source then
      report complaint [] (some node)
    return none

/-- Sets the base of a model. -/
def setBase (model : TypeId) (base : Option TypeId) : CheckM Unit :=
  modify fun s => s.modifyTypes fun types => types.modifyModel model fun m => { m with base }

/-- Checks the model that a model extends. -/
def checkBase (check : Check) (model : TypeId) : Option NodeId → CheckM Unit
  | none => return ()
  | some node => do
    let source ← check node
    let base ← admitHeritage .extendsNonModel model node source
    setBase model base

/-- Copies the properties of `source` into a model and, if asked to, takes over its base. The answer
is the decorators of `source`. -/
def copyModel (model source : TypeId) (node : NodeId) (finish withBase : Bool) :
    CheckM (List DecoratorApplication) := do
  match (← getTypes).model? source with
  | none => return []
  | some copied =>
    copyInto model [] finish node copied.properties.values
    if withBase then
      setBase model copied.base
    return copied.decorators

/-- Copies a model into another one, if it can be. The answer is its decorators. -/
def copyHeritage (model source : TypeId) (node : NodeId) (finish withBase : Bool) :
    CheckM (List DecoratorApplication) := do
  match ← admitHeritage .isNonModel model node source with
  | none => return []
  | some source => copyModel model source node finish withBase

/-- Checks the model that a model copies. Its base is taken over too, unless the model extends
another one. The answer is the decorators that come with it. -/
def checkCopied (check : Check) (model : TypeId) (finish withBase : Bool) :
    Option NodeId → CheckM (List DecoratorApplication)
  | none => return []
  | some node => do
    let source ← check node
    let reading := (← get).reading model node (.copied withBase) source
    let decorators ← copyHeritage model source node finish withBase
    noteReading reading
    return decorators

/-- Checks heritage, decorators and members of a model. -/
def buildModel (check : Check) (node : NodeId) (parts : ModelNode) (type : TypeId) :
    CheckM Unit := do
  checkBase check type parts.base
  let finish ← shouldFinish node
  let copied ← checkCopied check type finish parts.base.isNone parts.copied
  let own ← checkDecorators check node
  modify fun s => s.modifyTypes fun types => types.modifyModel type fun m =>
    { m with decorators := copied ++ own }
  checkMembers check type node parts.members
  finishIf finish type

/-- The type of a model statement in the current context. -/
def checkModel (check : Check) (node : NodeId) (parts : ModelNode) : CheckM TypeId :=
  construct node parts.templateParameters
    (fun parentNamespace templateArguments templateNode => .model { ModelType.anonymous with
      name := parts.name, parentNamespace, templateArguments, templateNode })
    (fun type => whileBuilding type (buildModel check node parts type))
    fun type contents => { contents with models := contents.models.insertIfNew parts.name type }

/-- The type of a model expression. -/
def checkModelExpression (check : Check) (node : NodeId) (members : List NodeId) :
    CheckM TypeId := do
  let type ← addType (some node) (.model .anonymous)
  whileBuilding type (checkMembers check type node members)
  return type

/-- The type of a property node: the property of its model that was built from it, or else one
built now. -/
def checkPropertyNode (check : Check) (node : NodeId) (parts : PropertyNode) : CheckM TypeId := do
  let tree ← getTree
  match tree.parent? node, (tree.parent? node).bind tree.kind? with
  | some parent, some (.modelStatement _) =>
    let model ← check parent
    let types ← getTypes
    match (types.ownProperties model).find? fun id => types.node? id = some node with
    | some existing => return existing
    | none => checkProperty check node parts
  | _, _ => checkProperty check node parts

end ApiSchema.Checking
