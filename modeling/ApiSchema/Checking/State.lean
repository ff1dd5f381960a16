import ApiSchema.Binding.Bindings
import ApiSchema.Decorator.Registry
import ApiSchema.Diagnostic.Basic

/-!
# The state of the checker

Checking turns syntax nodes into types on demand. Everything it has worked out is kept in one
`State`: the type table, what is known of each symbol, which template is being instantiated, which
models, interfaces and aliases are under construction, and the reports. It also keeps a record of
the references that were followed and of what models were read to build others, with what was
found. What does not change while checking is the `Environment`.

A computation of the checker, `CheckM`, has no answer if the depth of nested checks exceeds its
bound. That is apart from a failure, which is recorded in the state.
-/

namespace ApiSchema.Checking

/-- The instances of a template, by argument list. -/
abbrev Instances := OrderedMap (List TypeId) TypeId

/-- What is known of a symbol. -/
structure Links where
  /-- The type of a declaration; for a template the one with its parameters left open. -/
  declaredType : Option TypeId
  /-- The type of a namespace. -/
  namespaceType : Option TypeId
  instances : Instances
  deriving DecidableEq

/-- The links of a symbol of which nothing is known. -/
def Links.unknown : Links := ⟨none, none, .empty⟩

/-- A template declaration with arguments for its parameters. -/
structure Instantiation where
  declaration : NodeId
  arguments : List TypeId
  deriving DecidableEq

/-- An attempt to run a decorator on a type. -/
structure Attempt where
  target : TypeId
  application : DecoratorApplication
  /-- The template instance that was being checked. -/
  context : Option Instantiation
  /-- What the decorator left behind; nothing if it is not registered and so was not run. -/
  outcome : Option DecoratorOutcome
  /-- What the target was at that moment. -/
  seen : Option TypeRecord
  deriving DecidableEq

/-- A literal. -/
inductive Literal where
  | string (value : String)
  | number (value : Number)
  | boolean (value : Bool)
  deriving DecidableEq

/-- What the type of a literal is. -/
def Literal.shape : Literal → TypeShape
  | string value => .string value
  | number value => .number value
  | boolean value => .boolean value

attribute [simp] Literal.shape.eq_1 Literal.shape.eq_2 Literal.shape.eq_3

/-- A reference to a declaration. -/
structure Reference where
  node : NodeId
  declaration : NodeId
  /-- The template arguments, one for each parameter of the declaration. -/
  arguments : List TypeId
  /-- What the reference was found to stand for. -/
  type : TypeId
  deriving DecidableEq

/-- What a model that is built reads another one for. -/
inductive ReadingUse where
  /-- For the names that it inherits. -/
  | inherited
  /-- For all properties, to copy them. -/
  | spread
  /-- For the own properties, to copy them, and for the base, unless it extends another model. -/
  | copied (withBase : Bool)
  deriving DecidableEq

/-- The models whose own properties are read: all along the base models, or only the first. -/
def ReadingUse.models (types : TypeTable) (source : TypeId) : ReadingUse → List TypeId
  | inherited | spread => types.baseChain source
  | copied _ => [source]

/-- A reading of a model by one that is built. -/
structure Reading where
  reader : TypeId
  /-- The node that asks for the model. -/
  place : NodeId
  use : ReadingUse
  source : TypeId
  models : List TypeId
  /-- The own properties that the models had at that moment. -/
  properties : List TypeId
  /-- The models that were under construction at that moment. -/
  unfinished : List TypeId
  deriving DecidableEq

/-- Everything the checker has worked out. -/
structure State where
  bindings : Bindings
  types : TypeTable
  links : OrderedMap SymbolId Links
  /-- The symbol that stands for a namespace in all files. -/
  mergedSymbols : OrderedMap SymbolId SymbolId
  /-- The template instance being checked. -/
  context : Option Instantiation
  /-- The models and interfaces under construction. -/
  pending : OrderedMap (NodeId × List TypeId) TypeId
  /-- The models whose properties are being worked out, innermost first. -/
  building : List TypeId
  /-- The aliases being resolved. -/
  openAliases : List (NodeId × List TypeId)
  /-- The types of template parameters that are left open. -/
  parameterTypes : OrderedMap NodeId TypeId
  literalTypes : OrderedMap Literal TypeId
  /-- The namespace statements whose contents have been checked. -/
  checkedNamespaces : List NodeId
  /-- Whether the files have been merged into the global namespace. -/
  initialized : Bool
  diagnostics : Diagnostics
  /-- What decorators have recorded. -/
  record : StateMap
  /-- The attempts to run decorators, oldest first. -/
  attempts : List Attempt
  /-- The types whose decorators were to be run, latest first. -/
  finished : List TypeId
  /-- The references to declarations, latest first. -/
  references : List Reference
  /-- The readings of models, latest first. -/
  readings : List Reading
  /-- The internal errors that were met, latest first. -/
  errors : List InternalError
  /-- The failure that ended the running of decorators. -/
  failure : Option CheckError

/-- What stays fixed while checking. -/
structure Environment where
  tree : Tree
  registry : Registry
  /-- Whether a failing decorator is reported as a diagnostic instead of ending the run. -/
  designTime : Bool

/-- A computation of the checker. -/
abbrev CheckM := ReaderT Environment (StateT State Option)

/-- The check of a node that other checks call for. -/
abbrev Check := NodeId → CheckM TypeId

/-- The type of the global namespace. -/
def globalType : TypeId := ⟨1⟩

/-- The state before anything is checked. -/
def State.initial (bindings : Bindings) : State where
  bindings
  types := TypeTable.initial.push
    ⟨some Tree.globalNamespace, .namespaceType (NamespaceType.make "" none)⟩
  links := OrderedMap.empty.insert Bindings.globalSymbol
    { Links.unknown with namespaceType := globalType }
  mergedSymbols := .empty
  context := none
  pending := .empty
  building := []
  openAliases := []
  parameterTypes := .empty
  literalTypes := .empty
  checkedNamespaces := []
  initialized := false
  diagnostics := .empty
  record := .empty
  attempts := []
  finished := []
  references := []
  readings := []
  errors := []
  failure := none

namespace State

/-- What is known of a symbol. -/
def linksOf (s : State) (symbol : SymbolId) : Links := (s.links.find? symbol).getD .unknown

/-- The type of the declaration of a symbol, once it is known. -/
def declaredType? (s : State) (symbol : SymbolId) : Option TypeId := (s.linksOf symbol).declaredType

/-- The type of the declaration of a node, once it is known. -/
def declaredTypeOfNode? (s : State) (node : NodeId) : Option TypeId :=
  (s.bindings.symbolOf? node).bind s.declaredType?

/-- The symbol that stands for a symbol in all files. -/
def mergedSymbol (s : State) (symbol : SymbolId) : SymbolId :=
  (s.mergedSymbols.find? symbol).getD symbol

/-- The type of a namespace symbol. -/
def namespaceTypeOf? (s : State) (symbol : SymbolId) : Option TypeId :=
  (s.linksOf (s.mergedSymbol symbol)).namespaceType

/-- The type of the namespace that a declaration belongs to. -/
def parentNamespaceType? (s : State) (node : NodeId) : Option TypeId :=
  (s.bindings.namespaceOf? node).bind s.namespaceTypeOf?

/-- Changes what is known of a symbol. -/
def modifyLinks (s : State) (symbol : SymbolId) (f : Links → Links) : State :=
  { s with links := s.links.insert symbol (f (s.linksOf symbol)) }

/-- Changes the type table. -/
def modifyTypes (s : State) (f : TypeTable → TypeTable) : State := { s with types := f s.types }

/-- The reading of a model as things stand. -/
def reading (s : State) (reader : TypeId) (place : NodeId) (use : ReadingUse) (source : TypeId) :
    Reading :=
  let models := use.models s.types source
  ⟨reader, place, use, source, models, models.flatMap s.types.ownProperties, s.building⟩

/-- Records an internal error. It counts as the failure unless there was one before. -/
def raise (s : State) (cause : InternalError) : State :=
  { s with
    errors := cause :: s.errors
    failure := s.failure.or (some (.internal cause)) }

end State

/-! ### Basic steps -/

/-- The answer of a check that is nested too deeply: none. -/
def tooDeep {α : Type} : CheckM α := fun _ _ => none

/-- The syntax tree. -/
def getTree : CheckM Tree := return (← read).tree

/-- The type table as it stands. -/
def getTypes : CheckM TypeTable := return (← get).types

/-- Adds a type to the table. -/
def addType (node : Option NodeId) (shape : TypeShape) : CheckM TypeId := do
  let id := (← getTypes).nextId
  modify fun s => s.modifyTypes fun types => types.push ⟨node, shape⟩
  return id

/-- The diagnostic about a node; without a node in a file it has no place. -/
def diagnosticAt (tree : Tree) (message : Message) (arguments : List String)
    (node : Option NodeId) : Diagnostic :=
  match node.bind fun n => (tree.fileNameOf? n).bind fun file => (tree.node? n).map fun row =>
      (file, row.range.toSpan) with
  | some (file, span) => .make message arguments (some file) (some span)
  | none => .make message arguments none none

/-- Reports a message about a node. -/
def report (message : Message) (arguments : List String) (node : Option NodeId) : CheckM Unit := do
  let diagnostic := diagnosticAt (← getTree) message arguments node
  modify fun s => { s with diagnostics := s.diagnostics.add diagnostic }

/-- Records an internal error and answers the error type. -/
def internalError (cause : InternalError) : CheckM TypeId := do
  modify fun s => s.raise cause
  return TypeTable.errorType

/-- Runs a computation with another template context and goes back to the one before it. -/
def withContext {α : Type} (context : Option Instantiation) (x : CheckM α) : CheckM α := do
  let saved := (← get).context
  modify fun s => { s with context }
  let answer ← x
  modify fun s => { s with context := saved }
  return answer

/-- Runs a computation with a model marked as being built and goes back to the marks before it. -/
def whileBuilding {α : Type} (model : TypeId) (x : CheckM α) : CheckM α := do
  let saved := (← get).building
  modify fun s => { s with building := model :: saved }
  let answer ← x
  modify fun s => { s with building := saved }
  return answer

/-- Notes a reference to a declaration. -/
def noteReference (reference : Reference) : CheckM Unit :=
  modify fun s => { s with references := reference :: s.references }

/-- Notes a reading of a model. -/
def noteReading (reading : Reading) : CheckM Unit :=
  modify fun s => { s with readings := reading :: s.readings }

/-- Adds a declared type to a namespace, unless the name is taken there. -/
def addToNamespace (parentNamespace : Option TypeId)
    (add : NamespaceType → NamespaceType) : CheckM Unit :=
  match parentNamespace with
  | none => return ()
  | some id => modify fun s => s.modifyTypes fun types => TypeTable.modifyNamespace types id add

end ApiSchema.Checking
