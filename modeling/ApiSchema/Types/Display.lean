import ApiSchema.Number.Decimal
import ApiSchema.Syntax.Tree
import ApiSchema.Types.Table

/-!
# Names of types as shown to the user

A declared type is shown with the path of its namespace and its template arguments, a structural
type by its parts, and a literal by its value.
-/

namespace ApiSchema.TypeTable

variable (types : TypeTable) (tree : Tree)

/-- The non-empty names of a namespace and of the namespaces around it, innermost first, where those
around it are given. -/
def namespaceNamesStep (outerNames : Option TypeId → List String) : Option TypeId → List String
  | none => []
  | some id =>
    match namespace? types id with
    | none => []
    | some contents =>
      let outer := outerNames contents.parentNamespace
      if contents.name.isEmpty then outer else contents.name :: outer

/-- The non-empty names of a namespace and of at most `depth` namespaces around it, innermost
first. -/
def namespaceNames : Nat → Option TypeId → List String
  | 0 => fun _ => []
  | depth + 1 => namespaceNamesStep types (namespaceNames depth)

/-- The dotted path of a namespace; the global namespace has the empty path. -/
def namespacePath (id : Option TypeId) : String :=
  DottedPath.join (namespaceNames types (types.size + 1) id).reverse

/-- A name behind the path of its namespace. -/
def qualifiedName (parentNamespace : Option TypeId) (name : String) : String :=
  let path := namespacePath types parentNamespace
  if path.isEmpty then name else path ++ "." ++ name

/-- A name with template arguments in angle brackets, if there are any. -/
def withArguments (name : String) (arguments : List String) : String :=
  if arguments.isEmpty then name else name ++ "<" ++ ", ".intercalate arguments ++ ">"

/-- The name of a type, where the names of its parts are given. -/
def displayStep (display : TypeId → String) (id : TypeId) : String :=
  match shape? types id with
  | none => ""
  | some (.model m) =>
    if m.name.isEmpty then "(anonymous model)"
    else
      withArguments (qualifiedName types m.parentNamespace m.name) (m.templateArguments.map display)
  | some (.interfaceType i) =>
    withArguments (qualifiedName types i.parentNamespace i.name) (i.templateArguments.map display)
  | some (.namespaceType _) => namespacePath types (some id)
  | some (.operation o) =>
    match o.interface with
    | some interface => display interface ++ "." ++ o.name
    | none => qualifiedName types o.parentNamespace o.name
  | some (.enumType e) => qualifiedName types e.parentNamespace e.name
  | some (.enumMember m) => display m.enumType ++ "." ++ m.name
  | some (.property p) => p.name
  | some (.union options) => " | ".intercalate (options.map display)
  | some (.array element) => display element ++ "[]"
  | some (.tuple values) => "[" ++ ", ".intercalate (values.map display) ++ "]"
  | some .templateParameter => ((node? types id).bind tree.declaredName?).getD ""
  | some (.string value) => "\"" ++ value ++ "\""
  | some (.number value) => value.render
  | some (.boolean value) => if value then "true" else "false"
  | some (.intrinsic name) => name

/-- The name of a type that is nested at most `depth` levels deep. -/
def displayWithin : Nat → TypeId → String
  | 0 => fun _ => ""
  | depth + 1 => displayStep types tree (displayWithin depth)

/-- The name of a type. A chain of types each part of the one before it is no longer than the
table, unless it runs in a circle. -/
def display (id : TypeId) : String := displayWithin types tree (types.size + 1) id

end ApiSchema.TypeTable
