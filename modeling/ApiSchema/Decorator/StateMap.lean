import ApiSchema.Data.OrderedMap
import ApiSchema.Decorator.Application

/-!
# What decorators record

Decorators do not change types. They record values in a state map, under a key and the type that
the value is about; for each key the types stand in the order in which they were first given a
value.
-/

namespace ApiSchema

/-- The values that decorators have recorded, by key and type. -/
structure StateMap where
  entriesByKey : OrderedMap String (OrderedMap TypeId DecoratorArgument)
  deriving DecidableEq

namespace StateMap

/-- The state map in which nothing is recorded. -/
def empty : StateMap := ⟨.empty⟩

instance : Inhabited StateMap := ⟨empty⟩

/-- All values recorded under a key. -/
def valuesOf (state : StateMap) (key : String) : OrderedMap TypeId DecoratorArgument :=
  (state.entriesByKey.find? key).getD .empty

/-- The value recorded under a key about a type. -/
def find? (state : StateMap) (key : String) (target : TypeId) : Option DecoratorArgument :=
  (state.valuesOf key).find? target

/-- Whether a value is recorded under a key about a type. -/
def contains (state : StateMap) (key : String) (target : TypeId) : Bool :=
  (state.find? key target).isSome

/-- Records a value under a key about a type. -/
def set (state : StateMap) (key : String) (target : TypeId) (value : DecoratorArgument) :
    StateMap :=
  ⟨state.entriesByKey.insert key ((state.valuesOf key).insert target value)⟩

/-- The types with a value under a key, and their values. -/
def entries (state : StateMap) (key : String) : List (TypeId × DecoratorArgument) :=
  (state.valuesOf key).entries

end StateMap

end ApiSchema
