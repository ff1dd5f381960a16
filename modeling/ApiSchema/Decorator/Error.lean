/-!
# Failures

Mistakes of the user are diagnostics. A failure is something else: a decorator that reports that
it cannot do its work, or a broken promise inside the checker.
-/

namespace ApiSchema

/-- Why a decorator fails. -/
inductive DecoratorError where
  /-- For a reason of its own. -/
  | message (text : String)
  /-- It was given a wrong number of arguments. -/
  | argumentCount (expected actual : Nat)
  /-- It cannot use one of its arguments. -/
  | invalidArgument (index : Nat) (reason : String)
  deriving DecidableEq

/-- The wording of a decorator's failure. -/
def DecoratorError.render : DecoratorError → String
  | message text => text
  | argumentCount expected actual =>
    "expected " ++ toString expected ++ " argument(s) but got " ++ toString actual
  | invalidArgument index reason => "argument " ++ toString index ++ " is invalid: " ++ reason

/-- What the checker should not have met. -/
inductive InternalError where
  /-- A namespace is to be typed before the namespace around it. -/
  | untypedParent (name : String)
  /-- A namespace statement belongs to no typed namespace. -/
  | untypedNamespace (name : String)
  /-- A type symbol, given by its label, has no declaration. -/
  | undeclaredSymbol (label : String)
  /-- Any other broken promise. -/
  | other (text : String)
  deriving DecidableEq

/-- The wording of an internal error. -/
def InternalError.render : InternalError → String
  | untypedParent name => "parent namespace of " ++ name ++ " isn't typed yet"
  | untypedNamespace name => "namespace " ++ name ++ " has no type"
  | undeclaredSymbol label => "type symbol " ++ label ++ " has no declaration"
  | other text => text

/-- Why checking fails. -/
inductive CheckError where
  /-- A decorator, given by its short name, fails. -/
  | decorator (name : String) (cause : DecoratorError)
  | internal (cause : InternalError)
  deriving DecidableEq

/-- The wording of a failure. -/
def CheckError.render : CheckError → String
  | decorator name cause => "decorator @" ++ name ++ " failed: " ++ cause.render
  | internal cause => "internal compiler error: " ++ cause.render

end ApiSchema
