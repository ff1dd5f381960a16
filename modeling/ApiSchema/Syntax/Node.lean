import ApiSchema.Data.Id
import ApiSchema.Number.Binary64
import ApiSchema.Text.Span

/-!
# Syntax nodes

A node of the syntax tree refers to its children by identifier. `NodeKind.children` lists them in
source order: decorators, template parameters, heritage, then the body.
-/

namespace ApiSchema

/-- The parts of a namespace statement. -/
structure NamespaceNode where
  name : String
  statements : List NodeId
  /-- Whether the namespace has no block and extends to the end of the file. -/
  blockless : Bool
  decorators : List NodeId
  deriving DecidableEq

/-- The parts of a model statement. -/
structure ModelNode where
  name : String
  templateParameters : List NodeId
  /-- The model it extends. -/
  base : Option NodeId
  /-- The model it copies. -/
  copied : Option NodeId
  members : List NodeId
  decorators : List NodeId
  deriving DecidableEq

/-- The parts of a property. -/
structure PropertyNode where
  name : String
  optional : Bool
  value : NodeId
  defaultValue : Option NodeId
  decorators : List NodeId
  deriving DecidableEq

/-- The parts of an operation. -/
structure OperationNode where
  name : String
  /-- The model expression that lists the parameters. -/
  parameters : NodeId
  returns : NodeId
  decorators : List NodeId
  deriving DecidableEq

/-- The parts of an interface statement. -/
structure InterfaceNode where
  name : String
  templateParameters : List NodeId
  mixins : List NodeId
  operations : List NodeId
  decorators : List NodeId
  deriving DecidableEq

/-- The parts of an enum statement. -/
structure EnumNode where
  name : String
  members : List NodeId
  decorators : List NodeId
  deriving DecidableEq

/-- The parts of a member of an enum. -/
structure EnumMemberNode where
  name : String
  value : Option NodeId
  decorators : List NodeId
  deriving DecidableEq

/-- The parts of an alias statement. -/
structure AliasNode where
  name : String
  templateParameters : List NodeId
  value : NodeId
  deriving DecidableEq

/-- What a node stands for. -/
inductive NodeKind where
  | sourceFile (fileName : String) (statements : List NodeId)
  | namespaceStatement (parts : NamespaceNode)
  | usingStatement (target : NodeId)
  | modelStatement (parts : ModelNode)
  | modelProperty (parts : PropertyNode)
  | modelSpreadProperty (target : NodeId)
  | operationStatement (parts : OperationNode)
  | interfaceStatement (parts : InterfaceNode)
  | enumStatement (parts : EnumNode)
  | enumMember (parts : EnumMemberNode)
  | aliasStatement (parts : AliasNode)
  | intrinsicStatement (name : String)
  | templateParameterDeclaration (name : String)
  | modelExpression (members : List NodeId)
  | typeReference (target : NodeId) (arguments : List NodeId)
  | memberExpression (base : NodeId) (member : String)
  | identifier (name : String)
  | unionExpression (options : List NodeId)
  | intersectionExpression (operands : List NodeId)
  | arrayExpression (element : NodeId)
  | tupleExpression (values : List NodeId)
  | stringLiteral (value : String)
  | numericLiteral (value : Number)
  | booleanLiteral (value : Bool)
  | decoratorExpression (target : NodeId) (arguments : List NodeId)
  deriving DecidableEq

namespace NodeKind

/-- The word for a kind of node. -/
def label : NodeKind → String
  | sourceFile .. => "SourceFile"
  | namespaceStatement .. => "NamespaceStatement"
  | usingStatement .. => "UsingStatement"
  | modelStatement .. => "ModelStatement"
  | modelProperty .. => "ModelProperty"
  | modelSpreadProperty .. => "ModelSpreadProperty"
  | operationStatement .. => "OperationStatement"
  | interfaceStatement .. => "InterfaceStatement"
  | enumStatement .. => "EnumStatement"
  | enumMember .. => "EnumMember"
  | aliasStatement .. => "AliasStatement"
  | intrinsicStatement .. => "IntrinsicStatement"
  | templateParameterDeclaration .. => "TemplateParameterDeclaration"
  | modelExpression .. => "ModelExpression"
  | typeReference .. => "TypeReference"
  | memberExpression .. => "MemberExpression"
  | identifier .. => "Identifier"
  | unionExpression .. => "UnionExpression"
  | intersectionExpression .. => "IntersectionExpression"
  | arrayExpression .. => "ArrayExpression"
  | tupleExpression .. => "TupleExpression"
  | stringLiteral .. => "StringLiteral"
  | numericLiteral .. => "NumericLiteral"
  | booleanLiteral .. => "BooleanLiteral"
  | decoratorExpression .. => "DecoratorExpression"

/-- Whether the node declares a name that references can find. -/
def isDeclaration : NodeKind → Bool
  | namespaceStatement .. | modelStatement .. | operationStatement .. | interfaceStatement ..
  | enumStatement .. | aliasStatement .. | intrinsicStatement ..
  | templateParameterDeclaration .. => true
  | _ => false

/-- Whether the node is a literal. -/
def isLiteral : NodeKind → Bool
  | stringLiteral .. | numericLiteral .. | booleanLiteral .. => true
  | _ => false

/-- Whether the node is a namespace statement. -/
def isNamespace : NodeKind → Bool
  | namespaceStatement .. => true
  | _ => false

attribute [simp] isNamespace.eq_1 isNamespace.eq_2

/-- Whether the node is a file. -/
def isSourceFile : NodeKind → Bool
  | sourceFile .. => true
  | _ => false

attribute [simp] isSourceFile.eq_1 isSourceFile.eq_2

/-- The name that the node gives to what it declares. -/
def declaredName? : NodeKind → Option String
  | namespaceStatement parts => some parts.name
  | modelStatement parts => some parts.name
  | modelProperty parts => some parts.name
  | operationStatement parts => some parts.name
  | interfaceStatement parts => some parts.name
  | enumStatement parts => some parts.name
  | enumMember parts => some parts.name
  | aliasStatement parts => some parts.name
  | intrinsicStatement name => some name
  | templateParameterDeclaration name => some name
  | _ => none

/-- The name that occurs in the node, declared or referred to. -/
def name? : NodeKind → Option String
  | memberExpression _ member => some member
  | identifier name => some name
  | kind => kind.declaredName?

/-- The decorator expressions on the node. -/
def decorators : NodeKind → List NodeId
  | namespaceStatement parts => parts.decorators
  | modelStatement parts => parts.decorators
  | modelProperty parts => parts.decorators
  | operationStatement parts => parts.decorators
  | interfaceStatement parts => parts.decorators
  | enumStatement parts => parts.decorators
  | enumMember parts => parts.decorators
  | _ => []

/-- The template parameters that the node declares. -/
def templateParameters : NodeKind → List NodeId
  | modelStatement parts => parts.templateParameters
  | interfaceStatement parts => parts.templateParameters
  | aliasStatement parts => parts.templateParameters
  | _ => []

attribute [simp] templateParameters.eq_1 templateParameters.eq_2 templateParameters.eq_3
  templateParameters.eq_4

/-- The children of the node in source order. -/
def children : NodeKind → List NodeId
  | sourceFile _ statements => statements
  | namespaceStatement parts => parts.decorators ++ parts.statements
  | usingStatement target => [target]
  | modelStatement parts =>
    parts.decorators ++ parts.templateParameters ++ parts.base.toList ++ parts.copied.toList ++
      parts.members
  | modelProperty parts => parts.decorators ++ [parts.value] ++ parts.defaultValue.toList
  | modelSpreadProperty target => [target]
  | operationStatement parts => parts.decorators ++ [parts.parameters, parts.returns]
  | interfaceStatement parts =>
    parts.decorators ++ parts.templateParameters ++ parts.mixins ++ parts.operations
  | enumStatement parts => parts.decorators ++ parts.members
  | enumMember parts => parts.decorators ++ parts.value.toList
  | aliasStatement parts => parts.templateParameters ++ [parts.value]
  | modelExpression members => members
  | typeReference target arguments => target :: arguments
  | memberExpression base _ => [base]
  | unionExpression options => options
  | intersectionExpression operands => operands
  | arrayExpression element => [element]
  | tupleExpression values => values
  | decoratorExpression target arguments => target :: arguments
  | intrinsicStatement _ | templateParameterDeclaration _ | identifier _ | stringLiteral _
  | numericLiteral _ | booleanLiteral _ => []

attribute [simp] children.eq_1 children.eq_2 children.eq_3 children.eq_4 children.eq_5
  children.eq_6 children.eq_7 children.eq_8 children.eq_9 children.eq_10 children.eq_11
  children.eq_12 children.eq_13 children.eq_14 children.eq_15 children.eq_16 children.eq_17
  children.eq_18 children.eq_19 children.eq_20 children.eq_21 children.eq_22 children.eq_23
  children.eq_24 children.eq_25

end NodeKind

/-- A node with its place in the tree. -/
structure Node where
  kind : NodeKind
  range : TextRange
  parent : Option NodeId
  deriving DecidableEq

end ApiSchema
