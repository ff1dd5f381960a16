import ApiSchema.Data.OrderedMap
import ApiSchema.Decorator.Application

/-!
# Types

A type is a row of the type table: what it is, and the syntax node it was built from. Types refer
to each other by identifier.
-/

namespace ApiSchema

/-- A model: named properties and an optional base model. -/
structure ModelType where
  /-- The declared name; empty for a model expression. -/
  name : String
  parentNamespace : Option TypeId
  /-- The own properties, in order of definition. -/
  properties : OrderedMap String TypeId
  base : Option TypeId
  /-- The arguments of a template instance. -/
  templateArguments : List TypeId
  /-- The declaration, if it has template parameters. -/
  templateNode : Option NodeId
  decorators : List DecoratorApplication
  deriving DecidableEq

/-- A model expression before its members are known. -/
def ModelType.anonymous : ModelType := ⟨"", none, .empty, none, [], none, []⟩

/-- A property of a model. -/
structure PropertyType where
  name : String
  type : TypeId
  optional : Bool
  defaultValue : Option TypeId
  /-- The property this one is a copy of. -/
  source : Option TypeId
  decorators : List DecoratorApplication
  deriving DecidableEq

/-- A namespace: the declarations of all its reopenings. -/
structure NamespaceType where
  name : String
  parentNamespace : Option TypeId
  models : OrderedMap String TypeId
  operations : OrderedMap String TypeId
  namespaces : OrderedMap String TypeId
  interfaces : OrderedMap String TypeId
  enums : OrderedMap String TypeId
  decorators : List DecoratorApplication
  deriving DecidableEq

/-- A namespace in which nothing is declared yet. -/
def NamespaceType.make (name : String) (parentNamespace : Option TypeId) : NamespaceType :=
  ⟨name, parentNamespace, .empty, .empty, .empty, .empty, .empty, []⟩

/-- An operation, on its own or in an interface. -/
structure OperationType where
  name : String
  parentNamespace : Option TypeId
  interface : Option TypeId
  parameters : TypeId
  returns : TypeId
  decorators : List DecoratorApplication
  deriving DecidableEq

/-- An enum and its members. -/
structure EnumType where
  name : String
  parentNamespace : Option TypeId
  members : List TypeId
  decorators : List DecoratorApplication
  deriving DecidableEq

/-- The literal that a member of an enum stands for. -/
inductive EnumValue where
  | string (value : String)
  | number (value : Number)
  deriving DecidableEq

/-- A member of an enum. -/
structure EnumMemberType where
  name : String
  enumType : TypeId
  value : Option EnumValue
  decorators : List DecoratorApplication
  deriving DecidableEq

/-- An interface: a set of operations. -/
structure InterfaceType where
  name : String
  parentNamespace : Option TypeId
  operations : OrderedMap String TypeId
  /-- The arguments of a template instance. -/
  templateArguments : List TypeId
  /-- The declaration, if it has template parameters. -/
  templateNode : Option NodeId
  decorators : List DecoratorApplication
  deriving DecidableEq

/-- What a type is. -/
inductive TypeShape where
  | model (model : ModelType)
  | property (property : PropertyType)
  | namespaceType (contents : NamespaceType)
  | operation (operation : OperationType)
  | enumType (contents : EnumType)
  | enumMember (member : EnumMemberType)
  | interfaceType (contents : InterfaceType)
  | union (options : List TypeId)
  | array (element : TypeId)
  | tuple (values : List TypeId)
  | templateParameter
  | string (value : String)
  | number (value : Number)
  | boolean (value : Bool)
  | intrinsic (name : String)
  deriving DecidableEq

namespace TypeShape

/-- The word for what a type is. -/
def label : TypeShape → String
  | model _ => "Model"
  | property _ => "ModelProperty"
  | namespaceType _ => "Namespace"
  | operation _ => "Operation"
  | enumType _ => "Enum"
  | enumMember _ => "EnumMember"
  | interfaceType _ => "Interface"
  | union _ => "Union"
  | array _ => "Array"
  | tuple _ => "Tuple"
  | templateParameter => "TemplateParameter"
  | string _ => "String"
  | number _ => "Number"
  | boolean _ => "Boolean"
  | intrinsic _ => "Intrinsic"

/-- The decorators applied to a type. -/
def decorators : TypeShape → List DecoratorApplication
  | model m => m.decorators
  | property p => p.decorators
  | namespaceType n => n.decorators
  | operation o => o.decorators
  | enumType e => e.decorators
  | enumMember m => m.decorators
  | interfaceType i => i.decorators
  | _ => []

/-- The declared name of a type, without its namespace. -/
def name? : TypeShape → Option String
  | model m => some m.name
  | property p => some p.name
  | namespaceType n => some n.name
  | operation o => some o.name
  | enumType e => some e.name
  | enumMember m => some m.name
  | interfaceType i => some i.name
  | intrinsic name => some name
  | _ => none

end TypeShape

/-- A row of the type table. -/
structure TypeRecord where
  /-- The syntax node that the type was built from. -/
  node : Option NodeId
  shape : TypeShape
  deriving DecidableEq

end ApiSchema
