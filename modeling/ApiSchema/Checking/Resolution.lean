import ApiSchema.Binding.Program
import ApiSchema.Checking.Scope

/-!
# Resolving references

A reference is an identifier, looked up in the scopes around it, or a member of a namespace. What
cannot be resolved is reported. Decorators are looked up under a marked name.
-/

namespace ApiSchema.Checking

/-- Whether a reference is to a type or to a decorator. -/
inductive ReferenceKind where
  | type
  | decorator
  deriving DecidableEq

/-- The key under which a name is looked up. -/
def ReferenceKind.key : ReferenceKind → String → String
  | .type, name => name
  | .decorator, name => Bindings.decoratorKey name

/-- The answer of a look-up, which is reported if it found nothing. -/
def foundOrReport (found : Option SymbolId) (message : Message) (name : String) (node : NodeId) :
    CheckM (Option SymbolId) := do
  if found.isNone then
    report message [name] (some node)
  return found

/-- Looks a member up in what the base of a member expression stands for. -/
def resolveMember (base : SymbolId) (member : String) (kind : ReferenceKind) (node : NodeId) :
    CheckM (Option SymbolId) := do
  match (← get).bindings.symbol? base with
  | none => return none
  | some symbol =>
    if symbol.isDecorator then
      report .memberOfDecorator [member] (some node)
      return none
    else if !symbol.isNamespace then
      let declaration := symbol.node?.bind (← getTree).kind?
      report .memberOfNonNamespace [member, (declaration.map NodeKind.label).getD ""] (some node)
      return none
    else
      let found := ((← get).mergedExports? base).bind fun table => table.find? (kind.key member)
      foundOrReport found .noSuchMember member node

/-- Resolves a reference of at most `depth` segments. -/
def resolveWithin : Nat → NodeId → ReferenceKind → CheckM (Option SymbolId)
  | 0, _, _ => tooDeep
  | depth + 1, node, kind => do
    match (← getTree).kind? node with
    | some (.identifier name) =>
      let found := (← get).resolve? (← getTree) node (kind.key name)
      foundOrReport found .unknownIdentifier name node
    | some (.memberExpression base member) =>
      match ← resolveWithin depth base .type with
      | none => return none
      | some symbol => resolveMember symbol member kind node
    | some (.typeReference target _) => resolveWithin depth target kind
    | _ => return none

/-- Resolves a reference. -/
def resolveReference (node : NodeId) (kind : ReferenceKind) : CheckM (Option SymbolId) := do
  resolveWithin ((← getTree).size + 1) node kind

end ApiSchema.Checking
