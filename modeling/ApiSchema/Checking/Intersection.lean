import ApiSchema.Checking.Property

/-!
# Intersections

An intersection of models is a new model with copies of their properties, of which the first of
each name is kept.
-/

namespace ApiSchema.Checking

/-- Adds a copy of a property under its name, unless the name is taken; that is reported at the
operand. -/
def intersectProperty (finish : Bool) (operand : NodeId) (properties : OrderedMap String TypeId)
    (id : TypeId) : CheckM (OrderedMap String TypeId) := do
  match (← getTypes).property? id with
  | none => return properties
  | some property =>
    if properties.contains property.name then
      report .intersectionDuplicate [property.name] (some operand)
      return properties
    else
      let copy ← copyProperty finish id
      return properties.insert property.name copy

/-- Gathers the properties of the operands; there is no answer if one of them is no model. -/
def intersectOperands (finish : Bool) :
    List (NodeId × TypeId) → OrderedMap String TypeId → CheckM (Option (OrderedMap String TypeId))
  | [], properties => return some properties
  | (node, operand) :: rest, properties => do
    let types ← getTypes
    match types.shape? operand with
    | some .templateParameter => intersectOperands finish rest properties
    | some (.model _) =>
      let properties ← (types.inheritedProperties operand).foldlM
        (intersectProperty finish node) properties
      intersectOperands finish rest properties
    | _ =>
      report .intersectionOfNonModel [] (some node)
      return none

/-- The type of an intersection. -/
def checkIntersection (check : Check) (node : NodeId) (operands : List NodeId) :
    CheckM TypeId := do
  let types ← operands.mapM check
  let finish ← shouldFinish node
  match ← intersectOperands finish (operands.zip types) .empty with
  | none => return TypeTable.errorType
  | some properties => addType (some node) (.model { ModelType.anonymous with properties })

end ApiSchema.Checking
