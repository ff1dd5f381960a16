import ApiSchema.Checking.Decorating
import ApiSchema.Checking.Template

/-!
# Enums

An enum has one member of each name, which may stand for a text or a number.
-/

namespace ApiSchema.Checking

/-- The value of a member, if its type is that of a text or a number. -/
def enumValue? (types : TypeTable) (id : TypeId) : Option EnumValue :=
  match types.shape? id with
  | some (.string value) => some (.string value)
  | some (.number value) => some (.number value)
  | _ => none

/-- Checks the value of a member, which may be missing. -/
def checkEnumValue (check : Check) : Option NodeId → CheckM (Option EnumValue)
  | none => return none
  | some node => do
    let type ← check node
    return enumValue? (← getTypes) type

/-- Checks a member of an enum. -/
def checkEnumMember (check : Check) (enumType : TypeId) (node : NodeId) (parts : EnumMemberNode) :
    CheckM TypeId := do
  let value ← checkEnumValue check parts.value
  let decorators ← checkDecorators check node
  let type ← addType (some node) (.enumMember ⟨parts.name, enumType, value, decorators⟩)
  finishType type
  return type

/-- Checks the members of an enum. `seen` are the names of those before them; a repeated name is
reported and left out. -/
def checkEnumMembers (check : Check) (enumType : TypeId) :
    List NodeId → List String → CheckM (List TypeId)
  | [], _ => return []
  | member :: rest, seen => do
    match (← getTree).kind? member with
    | some (.enumMember parts) =>
      if parts.name ∈ seen then
        report .duplicateEnumMember [parts.name] (some member)
        checkEnumMembers check enumType rest seen
      else
        let type ← checkEnumMember check enumType member parts
        let types ← checkEnumMembers check enumType rest (parts.name :: seen)
        return type :: types
    | _ => checkEnumMembers check enumType rest seen

/-- Builds the type of an enum. It is known from before its members are checked. -/
def buildEnum (check : Check) (node : NodeId) (parts : EnumNode) : CheckM TypeId := do
  let parent := (← get).parentNamespaceType? node
  let decorators ← checkDecorators check node
  let type ← addType (some node) (.enumType ⟨parts.name, parent, [], decorators⟩)
  recordDeclared ((← get).bindings.symbolOf? node) type false []
  let members ← checkEnumMembers check type parts.members []
  modify fun s => s.modifyTypes fun types => types.modifyEnum type fun e => { e with members }
  finishType type
  addToNamespace parent fun contents =>
    { contents with enums := contents.enums.insertIfNew parts.name type }
  return type

/-- The type of an enum statement. -/
def checkEnum (check : Check) (node : NodeId) (parts : EnumNode) : CheckM TypeId := do
  match (← get).declaredTypeOfNode? node with
  | some type => return type
  | none => buildEnum check node parts

/-- The type of an enum member node: the member of its enum that was built from it. -/
def checkEnumMemberNode (check : Check) (node : NodeId) : CheckM TypeId := do
  match (← getTree).parent? node with
  | none => return TypeTable.errorType
  | some parent =>
    let enumType ← check parent
    let types ← getTypes
    let members := ((types.enum? enumType).map EnumType.members).getD []
    return (members.find? fun id => types.node? id = some node).getD TypeTable.errorType

end ApiSchema.Checking
