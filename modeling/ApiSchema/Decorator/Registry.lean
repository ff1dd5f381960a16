import ApiSchema.Decorator.Error
import ApiSchema.Decorator.StateMap
import ApiSchema.Text.Escaped
import ApiSchema.Types.Display

/-!
# Decorators and their registry

A decorator is a function of what it can see: the types and the syntax tree, the expression that
applies it, its target and arguments, and the state map. It can change the state map only, and it
may fail; what it has recorded before it fails stays recorded. A registry finds decorators by path.
-/

namespace ApiSchema

/-- What a decorator sees besides the state map. -/
structure DecoratorCall where
  types : TypeTable
  tree : Tree
  /-- The decorator expression. -/
  node : Option NodeId
  target : TypeId
  arguments : List DecoratorArgument

/-- The name of a type, as a decorator can ask for it. -/
def DecoratorCall.display (call : DecoratorCall) (id : TypeId) : String :=
  call.types.display call.tree id

/-- The state map that a decorator leaves behind, and its failure if it fails. -/
structure DecoratorOutcome where
  state : StateMap
  failure : Option DecoratorError
  deriving DecidableEq

/-- The implementation of a decorator. -/
abbrev Decorator := DecoratorCall → StateMap → DecoratorOutcome

/-- The known decorators, by path. -/
structure Registry where
  decorators : OrderedMap String Decorator

namespace Registry

/-- The registry without decorators. -/
def empty : Registry := ⟨.empty⟩

/-- Registers a decorator; a path registered before keeps its place. -/
def register (registry : Registry) (path : String) (decorator : Decorator) : Registry :=
  ⟨registry.decorators.insert path decorator⟩

/-- The decorator registered under a path. -/
def find? (registry : Registry) (path : String) : Option Decorator :=
  registry.decorators.find? path

/-- Whether a decorator is registered under a path. -/
def contains (registry : Registry) (path : String) : Bool := registry.decorators.contains path

/-- The registered paths, in order. -/
def paths (registry : Registry) : List String := registry.decorators.keys

/-- The number of registered paths. -/
def size (registry : Registry) : Nat := registry.decorators.size

/-- Whether nothing is registered. -/
def isEmpty (registry : Registry) : Bool := registry.decorators.isEmpty

/-- The listing of the registered paths. -/
def render (registry : Registry) : String := Escaped.listing registry.paths

end Registry

end ApiSchema
