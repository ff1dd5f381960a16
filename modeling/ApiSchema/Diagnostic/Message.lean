/-!
# The catalogue of messages

Each message has a code, a category and a template. A template mentions its arguments by number
in braces; `formatTemplate` inserts them.
-/

namespace ApiSchema

/-- How serious a diagnostic is. -/
inductive Category where
  | warning
  | error
  deriving DecidableEq, Inhabited

/-- The word for a category. -/
def Category.render : Category → String
  | .warning => "warning"
  | .error => "error"

/-- Everything that checking can complain about. -/
inductive Message where
  | unknownIdentifier
  | noSuchMember
  | memberOfDecorator
  | memberOfNonNamespace
  | decoratorAsType
  | notADecorator
  | usingOfDecorator
  | usingOfNonNamespace
  | duplicateName
  | tooFewTemplateArguments
  | tooManyTemplateArguments
  | argumentsOnNonTemplate
  | recursiveAlias
  | extendsNonModel
  | isNonModel
  | duplicateProperty
  | overriddenProperty
  | spreadOfNonModel
  | intersectionOfNonModel
  | intersectionDuplicate
  | defaultMismatch
  | recursiveBase
  | duplicateEnumMember
  | mixinOfNonInterface
  | mixinDuplicate
  | duplicateOperation
  | decoratorFailed
  | decoratorUnimplemented
  deriving DecidableEq, Inhabited

namespace Message

/-- The number under which a message is documented. Name resolution has the codes from 1001,
templates those from 2001, models from 3001, other declarations from 4001, decorators from 5001. -/
def code : Message → Nat
  | unknownIdentifier => 1001
  | noSuchMember => 1002
  | memberOfDecorator => 1003
  | memberOfNonNamespace => 1004
  | decoratorAsType => 1005
  | notADecorator => 1006
  | usingOfDecorator => 1007
  | usingOfNonNamespace => 1008
  | duplicateName => 1009
  | tooFewTemplateArguments => 2001
  | tooManyTemplateArguments => 2002
  | argumentsOnNonTemplate => 2003
  | recursiveAlias => 2004
  | extendsNonModel => 3001
  | isNonModel => 3002
  | duplicateProperty => 3003
  | overriddenProperty => 3004
  | spreadOfNonModel => 3005
  | intersectionOfNonModel => 3006
  | intersectionDuplicate => 3007
  | defaultMismatch => 3008
  | recursiveBase => 3009
  | duplicateEnumMember => 4001
  | mixinOfNonInterface => 4002
  | mixinDuplicate => 4003
  | duplicateOperation => 4004
  | decoratorFailed => 5001
  | decoratorUnimplemented => 5002

/-- Only a missing implementation is a warning. -/
def category : Message → Category
  | decoratorUnimplemented => .warning
  | _ => .error

/-- The wording, with numbered places for the arguments. -/
def template : Message → String
  | unknownIdentifier => "Unknown identifier \x7b0\x7d"
  | noSuchMember => "Namespace doesn't have member \x7b0\x7d"
  | memberOfDecorator => "Cannot resolve '\x7b0\x7d' in decorator"
  | memberOfNonNamespace => "Cannot resolve '\x7b0\x7d' in non-namespace node \x7b1\x7d"
  | decoratorAsType => "Can't put a decorator in a type"
  | notADecorator => "\x7b0\x7d is not a decorator"
  | usingOfDecorator => "Can't use a decorator"
  | usingOfNonNamespace => "Using must refer to a namespace"
  | duplicateName => "Duplicate name: \"\x7b0\x7d\""
  | tooFewTemplateArguments => "Too few template arguments provided."
  | tooManyTemplateArguments => "Too many template arguments provided."
  | argumentsOnNonTemplate => "Can't pass template arguments to non-templated type"
  | recursiveAlias => "Alias type '\x7b0\x7d' recursively references itself."
  | extendsNonModel => "Models must extend other models."
  | isNonModel => "Model `is` must specify another model."
  | duplicateProperty => "Model already has a property named \x7b0\x7d"
  | overriddenProperty =>
    "Model has an inherited property named \x7b0\x7d which cannot be overridden"
  | spreadOfNonModel => "Cannot spread properties of non-model type."
  | intersectionOfNonModel => "Cannot intersect non-model types (including union types)."
  | intersectionDuplicate => "Intersection contains duplicate property definitions for \x7b0\x7d"
  | defaultMismatch => "Default must be a \x7b0\x7d"
  | recursiveBase => "Model type '\x7b0\x7d' recursively references itself as a base type."
  | duplicateEnumMember => "Enum already has a member named \x7b0\x7d"
  | mixinOfNonInterface => "Interface mixin must be an interface"
  | mixinDuplicate =>
    "Interface mixes in a member named \x7b0\x7d that another mixin already provides"
  | duplicateOperation => "Interface already has a member named \x7b0\x7d"
  | decoratorFailed => "Decorator @\x7b0\x7d failed: \x7b1\x7d"
  | decoratorUnimplemented => "Decorator @\x7b0\x7d has no registered implementation"

/-- The catalogue, by code. -/
def all : List Message :=
  [unknownIdentifier, noSuchMember, memberOfDecorator, memberOfNonNamespace, decoratorAsType,
    notADecorator, usingOfDecorator, usingOfNonNamespace, duplicateName, tooFewTemplateArguments,
    tooManyTemplateArguments, argumentsOnNonTemplate, recursiveAlias, extendsNonModel, isNonModel,
    duplicateProperty, overriddenProperty, spreadOfNonModel, intersectionOfNonModel,
    intersectionDuplicate, defaultMismatch, recursiveBase, duplicateEnumMember, mixinOfNonInterface,
    mixinDuplicate, duplicateOperation, decoratorFailed, decoratorUnimplemented]

/-- The message with a code. -/
def ofCode? (code : Nat) : Option Message := all.find? fun message => message.code = code

/-- A message is found by its code. -/
theorem ofCode?_code (message : Message) : ofCode? message.code = some message := by
  cases message <;> rfl

end Message

/-- Replaces the occurrences of `pattern` in a text from left to right, none overlapping another.
While `skip` is positive the text still belongs to the occurrence found last. -/
def replaceFrom (pattern replacement : List Char) : Nat → List Char → List Char
  | _, [] => []
  | skip + 1, _ :: rest => replaceFrom pattern replacement skip rest
  | 0, c :: rest =>
    if pattern.isPrefixOf (c :: rest) then
      replacement ++ replaceFrom pattern replacement (pattern.length - 1) rest
    else c :: replaceFrom pattern replacement 0 rest

/-- The way a template mentions the argument with a number. -/
def placeholder (index : Nat) : List Char := '\x7b' :: (Nat.toDigits 10 index ++ ['\x7d'])

/-- Inserts the arguments from number `index` on, one after the other: each insertion sees the text
that the earlier ones have produced. -/
def insertArguments : Nat → List Char → List String → List Char
  | _, text, [] => text
  | index, text, argument :: rest =>
    insertArguments (index + 1) (replaceFrom (placeholder index) argument.toList 0 text) rest

/-- The text of a template with its arguments inserted in order. -/
def formatTemplate (template : String) (arguments : List String) : String :=
  String.ofList (insertArguments 0 template.toList arguments)

end ApiSchema
