import ApiSchema.Number.Binary64

/-!
# Statements as they read

The declarations of an API definition, described the way they are written: a file is a list of
statements, and types are expressions. Names of namespaces and references may be dotted paths.
-/

namespace ApiSchema

mutual

/-- A type, or a value where a literal is expected. -/
inductive Expr where
  /-- A reference to a declaration, with template arguments. -/
  | reference (path : String) (arguments : List Expr)
  /-- An anonymous model. -/
  | model (members : List Member)
  /-- A choice between types. -/
  | union (options : List Expr)
  /-- A model with the properties of all operands. -/
  | intersection (operands : List Expr)
  /-- A sequence of any length. -/
  | array (element : Expr)
  /-- A sequence of fixed length. -/
  | tuple (values : List Expr)
  | string (value : String)
  | number (value : Number)
  | boolean (value : Bool)

/-- A member of a model. -/
inductive Member where
  /-- A declared property, which may be optional and have a default value. -/
  | property (name : String) (optional : Bool) (type : Expr) (defaultValue : Option Expr)
      (decorations : List Decoration)
  /-- All properties of another model. -/
  | spread (target : Expr)

/-- A decorator applied to a declaration. -/
inductive Decoration where
  | mk (path : String) (arguments : List Expr)

end

instance : Inhabited Expr := ⟨.model []⟩

/-- An operation, on its own or in an interface. -/
structure Operation where
  name : String
  /-- The members of the parameter model. -/
  parameters : List Member
  returns : Expr
  decorations : List Decoration

/-- A member of an enum, with the literal it stands for if one is given. -/
structure EnumMember where
  name : String
  value : Option Expr
  decorations : List Decoration

/-- A statement of a file or of a namespace. -/
inductive Statement where
  /-- A model, which may extend a base model and copy the model it `is`. -/
  | modelDecl (name : String) (parameters : List String) (base copied : Option Expr)
      (members : List Member) (decorations : List Decoration)
  /-- A namespace, with a block or, if blockless, open to the end of the file. -/
  | namespaceDecl (path : String) (blockless : Bool) (body : List Statement)
      (decorations : List Decoration)
  /-- Imports the names of a namespace. -/
  | usingDecl (path : String)
  | operationDecl (operation : Operation)
  /-- An interface, which takes over the operations of the interfaces it mixes in. -/
  | interfaceDecl (name : String) (parameters : List String) (mixins : List Expr)
      (operations : List Operation) (decorations : List Decoration)
  | enumDecl (name : String) (members : List EnumMember) (decorations : List Decoration)
  | aliasDecl (name : String) (parameters : List String) (value : Expr)

/-- A file of statements. -/
structure SourceFile where
  name : String
  body : List Statement

end ApiSchema
