import ApiSchema.Decorator.Registry

/-!
# The documentation decorator

The standard decorator `doc` takes one text and records it as the documentation of its target.
-/

namespace ApiSchema.Documentation

/-- The path of the decorator, and the key under which it records. -/
def key : String := "doc"

/-- Records its only argument, which must be a text. -/
def decorator : Decorator := fun call state =>
  match call.arguments with
  | [.string text] => ⟨state.set key call.target (.string text), none⟩
  | [_] => ⟨state, some (.invalidArgument 0 "expected a string")⟩
  | arguments => ⟨state, some (.argumentCount 1 arguments.length)⟩

/-- Adds the standard decorators to a registry. -/
def install (registry : Registry) : Registry := registry.register key decorator

/-- The documentation of a type. -/
def find? (state : StateMap) (target : TypeId) : Option String :=
  (state.find? key target).bind DecoratorArgument.text?

end ApiSchema.Documentation
