import ApiSchema.Data.Id
import ApiSchema.Number.Binary64
import ApiSchema.Text.DottedPath

/-!
# Applications of decorators

A decorator is applied to a type with arguments: the values of literals, or other types. An
application keeps the path of the decorator and the expression it came from.
-/

namespace ApiSchema

/-- A value given to a decorator or recorded by one. -/
inductive DecoratorArgument where
  | string (value : String)
  | number (value : Number)
  | boolean (value : Bool)
  | type (id : TypeId)
  deriving DecidableEq

/-- The text of a string argument. -/
def DecoratorArgument.text? : DecoratorArgument → Option String
  | string value => some value
  | _ => none

/-- A decorator with its arguments, as attached to a type. -/
structure DecoratorApplication where
  path : String
  arguments : List DecoratorArgument
  /-- The decorator expression. -/
  node : Option NodeId
  deriving DecidableEq

/-- The short name of the applied decorator. -/
def DecoratorApplication.name (application : DecoratorApplication) : String :=
  DottedPath.lastSegment application.path

end ApiSchema
