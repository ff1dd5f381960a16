import ApiSchema.Checking.Node
import ApiSchema.Config.Basic
import ApiSchema.Decorator.Documentation
import ApiSchema.Syntax.Lowering

/-!
# Programs

A program is a syntax tree with options and decorators. Checking it binds the files, declares the
decorators and checks everything; the diagnostics come sorted by place and at most as many as the
options allow. Every check starts afresh.
-/

namespace ApiSchema

/-- A program. -/
structure Program where
  options : Options
  /-- The files that the configuration names. -/
  rootFiles : List String
  tree : Tree
  registry : Registry

/-- The answer of a check: what the checker has worked out, and the diagnostics. -/
structure CheckResult where
  state : Checking.State
  diagnostics : Diagnostics

namespace Program

/-- The program without files, which has the standard decorators. -/
def empty (options : Options) : Program := ⟨options, [], .initial, Documentation.install .empty⟩

/-- The program without files that a configuration describes. -/
def ofConfig (text : String) : Except Json.Fault Program := do
  let config ← Config.parse text
  return { empty config.options with rootFiles := config.files }

/-- Adds a file. -/
def addFile (program : Program) (file : SourceFile) : Program :=
  { program with tree := ((Tree.addFile file).run program.tree).2 }

/-- Registers a decorator. -/
def register (program : Program) (path : String) (decorator : Decorator) : Program :=
  { program with registry := program.registry.register path decorator }

/-- The bindings of a program, with its decorators declared. -/
def bindings (program : Program) : Bindings :=
  program.registry.paths.foldl
    (fun bindings path => ((Bindings.declareDecorator program.tree path).run bindings).2)
    (Bindings.ofTree program.tree)

/-- What stays fixed while a program is checked. -/
def environment (program : Program) : Checking.Environment :=
  ⟨program.tree, program.registry, program.options.designTime⟩

/-- Runs the checker over a program, with checks nested at most `depth` deep; there is no answer
beyond that. -/
def run (program : Program) (depth : Nat) : Option (Option CheckError × Checking.State) :=
  Checking.checkProgram depth program.environment (Checking.State.initial program.bindings)

/-- The diagnostics as they are answered. -/
def arrange (options : Options) (diagnostics : Diagnostics) : Diagnostics :=
  match options.maxDiagnostics with
  | none => diagnostics.sort
  | some limit => diagnostics.sort.truncate limit.toNat

/-- The answer that a run of the checker leads to. The diagnostics are taken out of the state. -/
def conclude (options : Options) (failure : Option CheckError) (state : Checking.State) :
    Except CheckError CheckResult :=
  match failure with
  | some failure => .error failure
  | none => .ok ⟨{ state with diagnostics := .empty }, arrange options state.diagnostics⟩

/-- Checks a program, with checks nested at most `depth` deep. -/
def check (program : Program) (depth : Nat) : Option (Except CheckError CheckResult) :=
  (program.run depth).map fun outcome => conclude program.options outcome.1 outcome.2

end Program

end ApiSchema
