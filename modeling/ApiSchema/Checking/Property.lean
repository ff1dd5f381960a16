import ApiSchema.Checking.Decorating
import ApiSchema.Checking.Template

/-!
# Properties

Properties are declared in a model or copied from another one. A model keeps the first property of
each name, and none that a base model has; every other one is reported.
-/

namespace ApiSchema.Checking

/-- The literals that can be the default of a property of an intrinsic type. -/
inductive DefaultKind where
  | string
  | number
  | boolean
  deriving DecidableEq

namespace DefaultKind

/-- The word for a kind of literal. -/
def label : DefaultKind → String
  | string => "string"
  | number => "number"
  | boolean => "boolean"

/-- The numeric intrinsic types. -/
def numericNames : List String :=
  ["int8", "int16", "int32", "int64", "uint8", "uint16", "uint32", "uint64", "safeint", "float32",
    "float64"]

/-- The kind of literal that a type asks of a default, if it asks for one. -/
def ofType? : TypeShape → Option DefaultKind
  | .intrinsic name =>
    if name = "string" then some string
    else if name ∈ numericNames then some number
    else if name = "boolean" then some boolean
    else none
  | _ => none

/-- Whether a type is that of a literal of the kind. -/
def accepts : DefaultKind → TypeShape → Bool
  | string, .string _ => true
  | number, .number _ => true
  | boolean, .boolean _ => true
  | _, _ => false

end DefaultKind

/-- Checks a default value against the type of its property. -/
def checkDefault (check : Check) (type : TypeId) (node : NodeId) : CheckM (Option TypeId) := do
  let value ← check node
  let types ← getTypes
  match (types.shape? type).bind DefaultKind.ofType? with
  | none => return some value
  | some expected =>
    if (types.shape? value).any expected.accepts then
      return some value
    else
      report .defaultMismatch [expected.label] (some node)
      return none

/-- Checks a default value that may be missing. -/
def checkOptionalDefault (check : Check) (type : TypeId) :
    Option NodeId → CheckM (Option TypeId)
  | none => return none
  | some node => checkDefault check type node

/-- Checks a declared property. -/
def checkProperty (check : Check) (node : NodeId) (parts : PropertyNode) : CheckM TypeId := do
  let type ← check parts.value
  let defaultValue ← checkOptionalDefault check type parts.defaultValue
  let decorators ← checkDecorators check node
  let id ← addType (some node)
    (.property ⟨parts.name, type, parts.optional, defaultValue, none, decorators⟩)
  finishIf (← shouldFinish node) id
  return id

/-- Copies a property; anything else is passed on as it is. -/
def copyProperty (finish : Bool) (source : TypeId) : CheckM TypeId := do
  match (← getTypes).property? source with
  | none => return source
  | some property =>
    let node := (← getTypes).node? source
    let copy ← addType node (.property { property with source := some source })
    finishIf finish copy
    return copy

/-- Adds a property to a model unless the model or, by the given names, a base model has one of its
name. -/
def defineProperty (model : TypeId) (inherited : List String) (node : NodeId) (id : TypeId) :
    CheckM Unit := do
  match (← getTypes).property? id with
  | none => return ()
  | some property =>
    if ((← getTypes).model? model).any fun m => m.properties.contains property.name then
      report .duplicateProperty [property.name] (some node)
    else if property.name ∈ inherited then
      report .overriddenProperty [property.name] (some node)
    else
      modify fun s => s.modifyTypes fun types => types.modifyModel model fun m =>
        { m with properties := m.properties.insert property.name id }

/-- Copies properties into a model. -/
def copyInto (model : TypeId) (inherited : List String) (finish : Bool) (node : NodeId)
    (properties : List TypeId) : CheckM Unit := do
  let copies ← properties.mapM (copyProperty finish)
  copies.forM (defineProperty model inherited node)

/-- Adds to a model what was read for a spread, which has to be of a model. -/
def spreadInto (model : TypeId) (inherited : List String) (finish : Bool) (member : NodeId)
    (reading : Reading) : CheckM Unit := do
  match (← getTypes).shape? reading.source with
  | some .templateParameter => return ()
  | some (.model _) => copyInto model inherited finish member reading.properties
  | _ =>
    if !TypeTable.isError reading.source then
      report .spreadOfNonModel [] (some reading.place)

/-- Checks a spread. -/
def checkSpread (check : Check) (model : TypeId) (inherited : List String) (finish : Bool)
    (member target : NodeId) : CheckM Unit := do
  let source ← check target
  let reading := (← get).reading model target .spread source
  spreadInto model inherited finish member reading
  noteReading reading

/-- Checks one member of a model. -/
def checkMember (check : Check) (model : TypeId) (inherited : List String) (finish : Bool)
    (member : NodeId) : CheckM Unit := do
  match (← getTree).kind? member with
  | some (.modelProperty parts) =>
    let property ← checkProperty check member parts
    defineProperty model inherited member property
  | some (.modelSpreadProperty target) =>
    checkSpread check model inherited finish member target
  | _ => return ()

/-- Reads the names of the properties that a model inherits. -/
def readInherited (model : TypeId) (owner : NodeId) : CheckM (List String) := do
  match ((← getTypes).model? model).bind ModelType.base with
  | none => return []
  | some base =>
    let reading := (← get).reading model owner .inherited base
    noteReading reading
    return (← getTypes).propertyNames reading.properties

/-- Checks the members of a model. What its base models have is read before the first of them. -/
def checkMembers (check : Check) (model : TypeId) (owner : NodeId) (members : List NodeId) :
    CheckM Unit := do
  let inherited ← readInherited model owner
  let finish ← shouldFinish owner
  members.forM (checkMember check model inherited finish)

end ApiSchema.Checking
