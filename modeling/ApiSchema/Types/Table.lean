import ApiSchema.Types.Basic

/-!
# The type table

The first row of a type table is the error type, which stands for everything that could not be
given a type. Besides access to the rows this module has the chain of base models and the
properties along it, a model's own properties before those of its base.
-/

namespace ApiSchema

/-- The types, by identifier. -/
abbrev TypeTable := Table TypeId TypeRecord

namespace TypeTable

/-- The type of everything that has no type. -/
def errorType : TypeId := ⟨0⟩

/-- The name of the error type. -/
def errorName : String := "ErrorType"

/-- The table with the error type only. -/
def initial : TypeTable := Table.empty.push ⟨none, .intrinsic errorName⟩

variable (types : TypeTable)

/-- Whether a type is the error type. -/
def isError (id : TypeId) : Bool := id = errorType

/-- What a type is. -/
def shape? (id : TypeId) : Option TypeShape := (types.get? id).map TypeRecord.shape

/-- The syntax node that a type was built from. -/
def node? (id : TypeId) : Option NodeId := (types.get? id).bind TypeRecord.node

/-- The model with an identifier. -/
def model? (id : TypeId) : Option ModelType :=
  match shape? types id with
  | some (.model m) => some m
  | _ => none

/-- The property with an identifier. -/
def property? (id : TypeId) : Option PropertyType :=
  match shape? types id with
  | some (.property p) => some p
  | _ => none

/-- The namespace with an identifier. -/
def namespace? (id : TypeId) : Option NamespaceType :=
  match shape? types id with
  | some (.namespaceType n) => some n
  | _ => none

/-- The operation with an identifier. -/
def operation? (id : TypeId) : Option OperationType :=
  match shape? types id with
  | some (.operation o) => some o
  | _ => none

/-- The interface with an identifier. -/
def interface? (id : TypeId) : Option InterfaceType :=
  match shape? types id with
  | some (.interfaceType i) => some i
  | _ => none

/-- The enum with an identifier. -/
def enum? (id : TypeId) : Option EnumType :=
  match shape? types id with
  | some (.enumType e) => some e
  | _ => none

/-- The options of the union with an identifier. -/
def union? (id : TypeId) : Option (List TypeId) :=
  match shape? types id with
  | some (.union options) => some options
  | _ => none

/-- The decorators applied to a type. -/
def decorators (id : TypeId) : List DecoratorApplication :=
  ((shape? types id).map TypeShape.decorators).getD []

/-- The declared name of a type, without its namespace. -/
def name? (id : TypeId) : Option String := (shape? types id).bind TypeShape.name?

/-- Replaces what a type is. -/
def modifyShape (id : TypeId) (f : TypeShape → TypeShape) : TypeTable :=
  types.modify id fun record => { record with shape := f record.shape }

/-- Changes a model; other types are left alone. -/
def modifyModel (id : TypeId) (f : ModelType → ModelType) : TypeTable :=
  modifyShape types id fun
    | .model m => .model (f m)
    | shape => shape

/-- Changes a namespace; other types are left alone. -/
def modifyNamespace (id : TypeId) (f : NamespaceType → NamespaceType) : TypeTable :=
  modifyShape types id fun
    | .namespaceType n => .namespaceType (f n)
    | shape => shape

/-- Changes an interface; other types are left alone. -/
def modifyInterface (id : TypeId) (f : InterfaceType → InterfaceType) : TypeTable :=
  modifyShape types id fun
    | .interfaceType i => .interfaceType (f i)
    | shape => shape

/-- Changes an enum; other types are left alone. -/
def modifyEnum (id : TypeId) (f : EnumType → EnumType) : TypeTable :=
  modifyShape types id fun
    | .enumType e => .enumType (f e)
    | shape => shape

/-! ### Base models -/

/-- At most `length` types from `id` on along base models, up to the first repetition of a type or
of one of `seen`. -/
def baseChainFrom : Nat → List TypeId → TypeId → List TypeId
  | 0, _, _ => []
  | length + 1, seen, id =>
    if id ∈ seen then []
    else
      match (model? types id).bind ModelType.base with
      | none => [id]
      | some base => id :: baseChainFrom length (id :: seen) base

/-- A type, its base model, the base of that, and so on, each once. -/
def baseChain (id : TypeId) : List TypeId := baseChainFrom types (types.size + 1) [] id

/-- The own properties of a model. -/
def ownProperties (id : TypeId) : List TypeId :=
  ((model? types id).map fun m => m.properties.values).getD []

/-- The properties of a model and of its base models, those of the model first. -/
def inheritedProperties (id : TypeId) : List TypeId :=
  (baseChain types id).flatMap (ownProperties types)

/-- The names of the properties in a list of types. -/
def propertyNames (properties : List TypeId) : List String :=
  properties.filterMap fun id => (property? types id).map PropertyType.name

/-- The names of the properties of a model and of its base models. -/
def inheritedNames (id : TypeId) : List String := propertyNames types (inheritedProperties types id)

end TypeTable

end ApiSchema
