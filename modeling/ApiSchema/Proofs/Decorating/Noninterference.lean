import ApiSchema.Proofs.Checking.Reports
import ApiSchema.Proofs.Checking.Requests
import ApiSchema.Program

/-!
# Decorators do not interfere with checking

To run a decorator changes the record, the attempts, the failure, and the diagnostics by one that is
about the decorator. Nothing else that is checked reads any of these. So two runs with different
decorators, in different modes, answer the same and leave the same types, links and bindings, and
the same diagnostics but for those about the running of decorators.
-/

namespace ApiSchema.Checking

variable {env : Environment} {s s' t t' : State} {target : TypeId}
  {application : DecoratorApplication}

/-! ### What running a decorator does -/

/-- The log with one more diagnostic. -/
def Log.add (log : Log) (d : Diagnostic) : Log := { log with diagnostics := log.diagnostics.add d }

/-- The log with an internal error, which counts only if there was no failure before. -/
def Log.fail (log : Log) (cause : InternalError) : Log :=
  { log with failure := log.failure.or (some (.internal cause)) }

/-- The log with one more attempt to run a decorator in a state. -/
def Log.note (log : Log) (s : State) (target : TypeId) (application : DecoratorApplication)
    (outcome : Option DecoratorOutcome) : Log :=
  { log with attempts := log.attempts ++
    [⟨target, application, s.context, outcome, s.types.get? target⟩] }

/-- What running a decorator makes of the log, in a state with that log. -/
def Log.decorate (log : Log) (env : Environment) (s : State) (target : TypeId)
    (application : DecoratorApplication) : Log :=
  if log.failure.isSome then log
  else
    match env.registry.find? application.path with
    | none => (log.note s target application none).add
        (diagnosticAt env.tree .decoratorUnimplemented [application.name] application.node)
    | some decorator =>
      let outcome := decorator
        ⟨s.types, env.tree, application.node, target, application.arguments⟩ log.record
      let noted := { log with record := outcome.state }.note s target application (some outcome)
      match outcome.failure with
      | none => noted
      | some cause =>
        if env.designTime then
          noted.add (diagnosticAt env.tree .decoratorFailed [application.name, cause.render]
            ((s.types.node? target).or application.node))
        else { noted with failure := some (.decorator application.name cause) }

/-- Running a decorator always comes to an end, and changes the log only. -/
theorem runDecorator_eq (env : Environment) (target : TypeId) (application : DecoratorApplication)
    (s : State) : runDecorator target application env s =
      some ((), s.withLog (s.log.decorate env s target application)) := by
  simp only [runDecorator, get_bind, Log.decorate]
  by_cases hfail : s.failure.isSome = true
  · rw [if_pos hfail, if_pos (by exact hfail)]
    rfl
  · rw [if_neg hfail, if_neg (by exact hfail), read_bind]
    cases env.registry.find? application.path with
    | none => rfl
    | some decorator =>
      change (match (decorator ⟨s.types, env.tree, application.node, target,
        application.arguments⟩ s.record).failure with
        | none => (pure () : CheckM Unit)
        | some cause => handleFailure target application cause) env _ = _
      dsimp only
      rw [show s.log.record = s.record from rfl]
      generalize decorator ⟨s.types, env.tree, application.node, target,
        application.arguments⟩ s.record = outcome
      cases outcome.failure with
      | none => rfl
      | some cause =>
        simp only [handleFailure, read_bind]
        split <;> rfl

/-! ### Couplings from relations between logs -/

/-- Since decorators change the log only, a coupling over a tree is given by what they do to the
relation between two logs. -/
def Coupling.ofLogs (tree : Tree) (registry registry' : Registry) (designTime designTime' : Bool)
    (relation : Log → Log → Prop)
    (add : ∀ {log log'} d, relation log log' → relation (log.add d) (log'.add d))
    (fail : ∀ {log log'} cause, relation log log' → relation (log.fail cause) (log'.fail cause))
    (decorate : ∀ {log log'} s target application, relation log log' →
      relation (log.decorate ⟨tree, registry, designTime⟩ s target application)
        (log'.decorate ⟨tree, registry', designTime'⟩ s target application)) : Coupling where
  left := ⟨tree, registry, designTime⟩
  right := ⟨tree, registry', designTime'⟩
  tree := rfl
  relation
  sound _ := True
  lasting := .trivial
  report message arguments node s s' u t h hrun := by
    simp only [Checking.report, Checking.getTree_bind] at hrun
    obtain rfl := run_modify.mp hrun
    exact ⟨_, rfl, h.core, add _ h.log, trivial⟩
  internalError cause s s' a t h hrun := by
    simp only [Checking.internalError, modify_bind] at hrun
    obtain ⟨rfl, rfl⟩ := run_pure.mp hrun
    refine ⟨_, rfl, ?_, fail cause h.log, trivial⟩
    change { s.core with errors := cause :: s.core.errors } = _
    rw [h.core]
    rfl
  runDecorator target application s s' u t h hrun := by
    rw [runDecorator_eq, Option.some.injEq, Prod.mk.injEq] at hrun
    obtain ⟨-, rfl⟩ := hrun
    have hsame : s'.log.decorate ⟨tree, registry', designTime'⟩ s target application =
        s'.log.decorate ⟨tree, registry', designTime'⟩ s' target application :=
      (congrArg (s'.log.decorate ⟨tree, registry', designTime'⟩ · target application) h.core :)
    exact ⟨_, runDecorator_eq .., h.core, hsame ▸ decorate s target application h.log, trivial⟩

/-! ### Two registries and two modes -/

theorem Log.withoutDecorators_add {log log' : Log} (d : Diagnostic)
    (h : log.diagnostics.withoutDecorators = log'.diagnostics.withoutDecorators) :
    (log.add d).diagnostics.withoutDecorators = (log'.add d).diagnostics.withoutDecorators := by
  rw [Diagnostics.withoutDecorators, Diagnostics.withoutDecorators, Diagnostics.mk.injEq] at h
  simp [Log.add, Diagnostics.add, Diagnostics.withoutDecorators, h]

/-- At most one thing is reported when a decorator is run, and it is about the decorator. -/
theorem Log.diagnostics_decorate (log : Log) :
    (log.decorate env s target application).diagnostics = log.diagnostics ∨
      ∃ d : Diagnostic, d.isAboutDecorator = true ∧
        (log.decorate env s target application).diagnostics = log.diagnostics.add d := by
  rw [Log.decorate]
  split
  · exact .inl rfl
  · split
    · exact .inr ⟨_, by simp [Diagnostic.isAboutDecorator, code_diagnosticAt, Message.code], rfl⟩
    · dsimp only
      split
      · exact .inl rfl
      · split
        · exact .inr ⟨_, by simp [Diagnostic.isAboutDecorator, code_diagnosticAt, Message.code], rfl⟩
        · exact .inl rfl

theorem Log.withoutDecorators_decorate (log : Log) :
    (log.decorate env s target application).diagnostics.withoutDecorators =
      log.diagnostics.withoutDecorators := by
  rcases log.diagnostics_decorate with heq | ⟨d, habout, heq⟩
  · rw [heq]
  · simp [heq, Diagnostics.add, Diagnostics.withoutDecorators, habout]

/-- Runs with any decorators and in any modes are coupled, and report the same but for what is about
the running of decorators. -/
def Coupling.free (tree : Tree) (registry registry' : Registry) (designTime designTime' : Bool) :
    Coupling :=
  .ofLogs tree registry registry' designTime designTime'
    (fun log log' => log.diagnostics.withoutDecorators = log'.diagnostics.withoutDecorators)
    Log.withoutDecorators_add (fun _ h => h)
    (fun _ _ _ h => by rw [Log.withoutDecorators_decorate, Log.withoutDecorators_decorate, h])

/-- Whatever decorators are registered, and whether or not a failure is reported: requests that are
answered in one run are answered in the other, with the same types. The runs leave the same type
table, links, symbols and local names, and the same diagnostics in the same order but for those
about the running of decorators. -/
theorem checking_independent_of_decorators (tree : Tree) (bindings : Bindings)
    (registry registry' : Registry) (designTime designTime' : Bool) (requests : List Request)
    {answers : List (Option TypeId)} {s : State}
    (hrun : Performs ⟨tree, registry, designTime⟩ requests (.initial bindings) answers s) :
    (∃ answers' s',
      Performs ⟨tree, registry', designTime'⟩ requests (.initial bindings) answers' s') ∧
    ∀ answers' s',
      Performs ⟨tree, registry', designTime'⟩ requests (.initial bindings) answers' s' →
      answers' = answers ∧ s'.types = s.types ∧ s'.links = s.links ∧ s'.bindings = s.bindings ∧
        s'.mergedSymbols = s.mergedSymbols ∧
        s'.diagnostics.withoutDecorators = s.diagnostics.withoutDecorators := by
  obtain ⟨t, hrun', hcoupled⟩ :=
    (Coupling.free tree registry registry' designTime designTime').performs
      ⟨rfl, rfl, trivial⟩ hrun
  refine ⟨⟨answers, t, hrun'⟩, fun answers' s' hother => ?_⟩
  obtain ⟨rfl, rfl⟩ := Performs.unique hrun' hother
  have hcore : s'.core = s.core := hcoupled.core.symm
  exact ⟨rfl, (congrArg State.types hcore :), (congrArg State.links hcore :),
    (congrArg State.bindings hcore :), (congrArg State.mergedSymbols hcore :), hcoupled.log.symm⟩

/-- A model of pages whose documentation is no text: `@doc(true) model Page { next?: Page }`. -/
def pages : Program :=
  ⟨.default, [], .ofFiles [⟨"pages", [.modelDecl "Page" [] none none
    [.property "next" true (.reference "Page" []) none []] [.mk "doc" [.boolean true]]]⟩],
    Documentation.install .empty⟩

/-- The failure of the decorator in one run, and its absence in another, leave the page alone. -/
theorem checking_independent_of_decorators_pages :
    ∃ answers s answers' s',
      Performs ⟨pages.tree, pages.registry, false⟩ [.program, .node ⟨26⟩]
        (.initial pages.bindings) answers s ∧
      s.failure = some (.decorator "doc" (.invalidArgument 0 "expected a string")) ∧
      Performs ⟨pages.tree, .empty, true⟩ [.program, .node ⟨26⟩]
        (.initial pages.bindings) answers' s' ∧
      s'.failure = none ∧ answers = [none, some ⟨2⟩] ∧ answers' = answers ∧
      s'.types = s.types := by
  obtain ⟨answers, s, hrun, hfailure, hanswers⟩ := @exists_performs
    ⟨pages.tree, pages.registry, false⟩ (.initial pages.bindings) 12 [.program, .node ⟨26⟩]
    (fun outcome => outcome.2.failure = some (.decorator "doc" (.invalidArgument 0 "expected a string")) ∧
      outcome.1 = [none, some ⟨2⟩]) _ (by decide +kernel)
  obtain ⟨answers', s', hrun', hfailure'⟩ := @exists_performs
    ⟨pages.tree, .empty, true⟩ (.initial pages.bindings) 12 [.program, .node ⟨26⟩]
    (fun outcome => outcome.2.failure = none) _ (by decide +kernel)
  obtain ⟨hequal, htypes, -⟩ := (checking_independent_of_decorators pages.tree pages.bindings
    pages.registry .empty false true [.program, .node ⟨26⟩] hrun).2 answers' s' hrun'
  exact ⟨answers, s, answers', s', hrun, hfailure, hrun', hfailure', hanswers, hequal, htypes⟩

end ApiSchema.Checking
