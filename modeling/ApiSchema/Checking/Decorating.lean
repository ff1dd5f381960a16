import ApiSchema.Checking.Resolution

/-!
# Decorating types

The decorators on a declaration are resolved and their arguments evaluated when the declaration is
checked; they are run, in the reverse of their written order, once the type is complete. A decorator
that fails ends the running of decorators for good, or in a design-time build is reported.
-/

namespace ApiSchema.Checking

/-- The value that a type is passed as to a decorator. -/
def decoratorArgument (types : TypeTable) (id : TypeId) : DecoratorArgument :=
  match types.shape? id with
  | some (.string value) => .string value
  | some (.number value) => .number value
  | some (.boolean value) => .boolean value
  | _ => .type id

/-- Evaluates an argument of a decorator. -/
def checkArgument (check : Check) (node : NodeId) : CheckM DecoratorArgument := do
  let type ← check node
  return decoratorArgument (← getTypes) type

/-- Resolves a decorator expression and evaluates its arguments. -/
def checkDecoration (check : Check) (node : NodeId) : CheckM (Option DecoratorApplication) := do
  match (← getTree).kind? node with
  | some (.decoratorExpression target arguments) =>
    match ← resolveReference target .decorator with
    | none => return none
    | some id =>
      match (← get).bindings.symbol? id with
      | none => return none
      | some symbol =>
        match symbol.kind with
        | .decorator path =>
          let arguments ← arguments.mapM (checkArgument check)
          return some ⟨path, arguments, some node⟩
        | _ =>
          report .notADecorator [symbol.name] (some node)
          return none
  | _ => return none

/-- The applications of the decorators on a node, in the order in which they are to be run. -/
def checkDecorators (check : Check) (node : NodeId) : CheckM (List DecoratorApplication) := do
  let applications ← ((← getTree).decorators node).mapM (checkDecoration check)
  return applications.reduceOption.reverse

/-- Notes an attempt to run a decorator. -/
def noteAttempt (target : TypeId) (application : DecoratorApplication)
    (outcome : Option DecoratorOutcome) : CheckM Unit :=
  modify fun s => { s with
    attempts := s.attempts ++ [⟨target, application, s.context, outcome, s.types.get? target⟩] }

/-- Runs a decorator on a type and keeps what it records. -/
def applyDecorator (decorator : Decorator) (target : TypeId) (application : DecoratorApplication) :
    CheckM DecoratorOutcome := do
  let call := ⟨← getTypes, ← getTree, application.node, target, application.arguments⟩
  let outcome := decorator call (← get).record
  modify fun s => { s with record := outcome.state }
  return outcome

/-- Deals with a decorator that failed. -/
def handleFailure (target : TypeId) (application : DecoratorApplication) (cause : DecoratorError) :
    CheckM Unit := do
  if (← read).designTime then
    let place := ((← getTypes).node? target).or application.node
    report .decoratorFailed [application.name, cause.render] place
  else
    modify fun s => { s with failure := some (.decorator application.name cause) }

/-- Runs one decorator on a type, unless there was a failure before. -/
def runDecorator (target : TypeId) (application : DecoratorApplication) : CheckM Unit := do
  if (← get).failure.isSome then
    return ()
  else
    match (← read).registry.find? application.path with
    | none =>
      noteAttempt target application none
      report .decoratorUnimplemented [application.name] application.node
    | some decorator =>
      let outcome ← applyDecorator decorator target application
      noteAttempt target application (some outcome)
      match outcome.failure with
      | none => return ()
      | some cause => handleFailure target application cause

/-- Notes that the decorators of a type are to be run. -/
def noteFinished (target : TypeId) : CheckM Unit :=
  modify fun s => { s with finished := target :: s.finished }

/-- Runs decorators on a type, one after the other. -/
def runDecorators (target : TypeId) (applications : List DecoratorApplication) : CheckM Unit := do
  noteFinished target
  applications.forM (runDecorator target)

/-- Runs the decorators of a type that is complete. -/
def finishType (type : TypeId) : CheckM Unit := do
  runDecorators type ((← getTypes).decorators type)

/-- Runs the decorators of a type if it is complete. -/
def finishIf (finish : Bool) (type : TypeId) : CheckM Unit := do
  if finish then
    finishType type

end ApiSchema.Checking
