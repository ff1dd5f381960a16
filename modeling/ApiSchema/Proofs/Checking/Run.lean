import ApiSchema.Checking.Node

/-!
# Runs of the checker

A computation of the checker, run in an environment and a state, has no answer or an answer and a
new state. This module says what the run of a composed computation consists of, so that later
proofs take a run apart step by step and never unfold the monad. It also singles out the quiet
runs, which only report, and those that run decorators on a type.
-/

namespace ApiSchema.Checking

open List

variable {α β : Type} {env : Environment} {s s' s₁ s₂ s₃ : State} {t model source type : TypeId}
  {message complaint : Message} {application : DecoratorApplication} {finish : Bool}
  {target : TypeId} {u : Unit} {node : NodeId} {xs : List α} {P : State → Prop}
  {arguments : List String} {answer : Option TypeId}

/-! ### Taking runs apart -/

/-- A sequence runs the first computation and then the second one on its answer. -/
theorem run_bind {m : CheckM α} {f : α → CheckM β} {b : β} :
    (m >>= f) env s = some (b, s') ↔
      ∃ a s₁, m env s = some (a, s₁) ∧ f a env s₁ = some (b, s') := by
  change (m env s).bind (fun p => f p.1 env p.2) = some (b, s') ↔ _
  rw [Option.bind_eq_some_iff]
  simp only [Prod.exists]

/-- The answer of a computation. A choice between computations can be split in this form. -/
def Chosen (m : CheckM α) (env : Environment) (s : State) (answer : Option (α × State)) : Prop :=
  m env s = answer

/-- A run is a run of the computation that is chosen. -/
theorem run_chosen {m : CheckM α} {answer : Option (α × State)} (h : m env s = answer) :
    Chosen m env s answer := h

/-- A given answer leaves the state as it is. -/
theorem run_pure {a b : α} : (pure a : CheckM α) env s = some (b, s') ↔ b = a ∧ s' = s := by
  change some (a, s) = some (b, s') ↔ _
  simp [eq_comm]

/-- A sequence that ends with its answer runs what comes before. -/
theorem run_bind_pure {m : CheckM α} {f : α → β} {b : β} :
    (m >>= fun a => pure (f a)) env s = some (b, s') ↔ ∃ a, m env s = some (a, s') ∧ b = f a := by
  simp only [run_bind, run_pure]
  exact ⟨fun ⟨a, _, hm, hb, hs⟩ => ⟨a, hs ▸ hm, hb⟩, fun ⟨a, hm, hb⟩ => ⟨a, s', hm, hb, rfl⟩⟩

/-- What is known is not worked out again. -/
theorem run_known {known : Option TypeId} {m : CheckM TypeId}
    (h : (match known with | some t => pure t | none => m) env s = some (t, s')) :
    (known = some t ∧ s' = s) ∨ (known = none ∧ m env s = some (t, s')) := by
  cases known with
  | some u =>
    obtain ⟨rfl, rfl⟩ := run_pure.mp h
    exact .inl ⟨rfl, rfl⟩
  | none => exact .inr ⟨rfl, h⟩

/-- A change of the state has no other effect. -/
theorem run_modify {f : State → State} {u : PUnit} :
    (modify f : CheckM PUnit) env s = some (u, s') ↔ s' = f s := by
  change some (PUnit.unit, f s) = some (u, s') ↔ _
  simp [eq_comm]

@[simp] theorem get_bind (f : State → CheckM β) : (get >>= f) env s = f s env s := rfl

@[simp] theorem read_bind (f : Environment → CheckM β) : (read >>= f) env s = f env env s := rfl

@[simp] theorem getTree_bind (f : Tree → CheckM β) : (getTree >>= f) env s = f env.tree env s := rfl

@[simp] theorem getTypes_bind (f : TypeTable → CheckM β) :
    (getTypes >>= f) env s = f s.types env s := rfl

@[simp] theorem modify_bind (g : State → State) (f : PUnit → CheckM β) :
    (modify g >>= f) env s = f ⟨⟩ env (g s) := rfl

@[simp] theorem shouldFinish_bind (node : NodeId) (f : Bool → CheckM β) :
    (shouldFinish node >>= f) env s = f (s.shouldFinish env.tree node) env s := rfl

/-- Only the answer is discarded. -/
theorem run_discard {m : CheckM α} {u : PUnit} :
    (discard m) env s = some (u, s') ↔ ∃ a, m env s = some (a, s') := by
  change (m >>= fun _ => pure PUnit.unit) env s = some (u, s') ↔ _
  simp only [run_bind, run_pure, true_and, exists_eq_right']

/-- Too deep a nesting has no answer. -/
theorem run_tooDeep {a : α} : ¬ (tooDeep : CheckM α) env s = some (a, s') := by
  rw [tooDeep]
  simp

/-- No check is nested less than not at all. -/
theorem run_checkNode_zero :
    ¬ checkNode 0 node env s = some (t, s') := by
  rw [checkNode]
  exact run_tooDeep

/-- An empty loop changes nothing. -/
theorem run_forM_nil {f : α → CheckM PUnit} {u : PUnit} :
    ([].forM f) env s = some (u, s') ↔ s' = s := by
  change (pure PUnit.unit : CheckM PUnit) env s = some (u, s') ↔ _
  simp only [run_pure, true_and]

/-- A loop runs its first round and then the others. -/
theorem run_forM_cons {f : α → CheckM PUnit} {x : α} {u : PUnit} :
    ((x :: xs).forM f) env s = some (u, s') ↔
      ∃ s₁, f x env s = some (⟨⟩, s₁) ∧ xs.forM f env s₁ = some (⟨⟩, s') := by
  change (f x >>= fun _ => xs.forM f) env s = some (u, s') ↔ _
  rw [run_bind]
  exact ⟨fun ⟨_, s₁, hx, hxs⟩ => ⟨s₁, hx, hxs⟩, fun ⟨s₁, hx, hxs⟩ => ⟨⟨⟩, s₁, hx, hxs⟩⟩

/-- What each round of a loop preserves the loop preserves. -/
theorem forM_preserves {f : α → CheckM PUnit} {u : PUnit} (h : P s)
    (hf : ∀ {x s s'}, P s → f x env s = some (⟨⟩, s') → P s')
    (hrun : xs.forM f env s = some (u, s')) : P s' := by
  induction xs generalizing s with
  | nil => exact run_forM_nil.mp hrun ▸ h
  | cons x xs ih =>
    obtain ⟨s₁, hfirst, hrest⟩ := run_forM_cons.mp hrun
    exact ih (hf h hfirst) hrest

/-- Statements are checked one after the other. -/
theorem visits_preserves {check : Check} {statements : List NodeId} {u : PUnit} (h : P s)
    (hcheck : ∀ {n s s' t}, P s → check n env s = some (t, s') → P s')
    (hrun : statements.forM (fun statement => discard (check statement)) env s = some (u, s')) :
    P s' := by
  refine forM_preserves h (fun h hrun => ?_) hrun
  obtain ⟨t, hrun⟩ := run_discard.mp hrun
  exact hcheck h hrun

/-- Nothing is worked out for no elements. -/
theorem run_mapM_nil {f : α → CheckM β} {ys : List β} :
    ([].mapM f) env s = some (ys, s') ↔ ys = [] ∧ s' = s := by
  rw [mapM_nil, run_pure]

/-- The first element is worked out and then the others. -/
theorem run_mapM_cons {f : α → CheckM β} {x : α} {ys : List β} :
    ((x :: xs).mapM f) env s = some (ys, s') ↔
      ∃ y s₁ rest, f x env s = some (y, s₁) ∧ xs.mapM f env s₁ = some (rest, s') ∧
        ys = y :: rest := by
  rw [mapM_cons, run_bind]
  simp only [run_bind_pure, exists_and_left]

/-- What each round preserves all rounds preserve. -/
theorem mapM_preserves {f : α → CheckM β} {ys : List β} (h : P s)
    (hf : ∀ {x y s s'}, P s → f x env s = some (y, s') → P s')
    (hrun : xs.mapM f env s = some (ys, s')) : P s' := by
  induction xs generalizing s ys with
  | nil => exact (run_mapM_nil.mp hrun).2 ▸ h
  | cons x xs ih =>
    obtain ⟨y, s₁, rest, hfirst, hrest, -⟩ := run_mapM_cons.mp hrun
    exact ih (hf h hfirst) hrest

/-- The first element is taken in and then the others. -/
theorem run_foldlM_cons {f : β → α → CheckM β} {b c : β} {x : α} :
    ((x :: xs).foldlM f b) env s = some (c, s') ↔
      ∃ d s₁, f b x env s = some (d, s₁) ∧ xs.foldlM f d env s₁ = some (c, s') := by
  rw [foldlM_cons, run_bind]

/-- The context is exchanged for the run and then put back. -/
theorem run_withContext {context : Option Instantiation} {x : CheckM α} {a : α} :
    withContext context x env s = some (a, s') ↔
      ∃ s₁, x env { s with context } = some (a, s₁) ∧ s' = { s₁ with context := s.context } := by
  simp only [withContext, get_bind, modify_bind, run_bind, run_pure]
  constructor
  · rintro ⟨_, s₁, hx, rfl, rfl⟩
    exact ⟨s₁, hx, rfl⟩
  · rintro ⟨s₁, hx, rfl⟩
    exact ⟨a, s₁, hx, rfl, rfl⟩

/-- A model is marked for the run, and then the marks before it are put back. -/
theorem run_whileBuilding {x : CheckM α} {a : α} :
    whileBuilding model x env s = some (a, s') ↔
      ∃ s₁, x env { s with building := model :: s.building } = some (a, s₁) ∧
        s' = { s₁ with building := s.building } := by
  simp only [whileBuilding, get_bind, modify_bind, run_bind, run_pure]
  constructor
  · rintro ⟨_, s₁, hx, rfl, rfl⟩
    exact ⟨s₁, hx, rfl⟩
  · rintro ⟨s₁, hx, rfl⟩
    exact ⟨a, s₁, hx, rfl, rfl⟩

/-! ### Adding rows -/

/-- The state with one more type. -/
def State.addRow (s : State) (row : TypeRecord) : State := s.modifyTypes fun types => types.push row

@[simp] theorem addType_bind (node : Option NodeId) (shape : TypeShape) (f : TypeId → CheckM β) :
    (addType node shape >>= f) env s = f s.types.nextId env (s.addRow ⟨node, shape⟩) := rfl

/-- A new type gets the next number. -/
theorem run_addType {node : Option NodeId} {shape : TypeShape} {id : TypeId} :
    addType node shape env s = some (id, s') ↔
      id = s.types.nextId ∧ s' = s.addRow ⟨node, shape⟩ := by
  change some (s.types.nextId, s.addRow ⟨node, shape⟩) = some (id, s') ↔ _
  simp [eq_comm]

/-! ### Quiet runs -/

/-- Between the states there were only reports. -/
structure Quiet (s s' : State) : Prop where
  eq : s' = { s with diagnostics := s'.diagnostics }
  diagnostics : s.diagnostics.toList <+: s'.diagnostics.toList

namespace Quiet

/-- Nothing has to be reported. -/
theorem refl (s : State) : Quiet s s := ⟨rfl, prefix_rfl⟩

/-- Quiet runs follow each other quietly. -/
theorem trans (h : Quiet s₁ s₂) (h' : Quiet s₂ s₃) : Quiet s₁ s₃ :=
  ⟨by rw [h'.eq, h.eq], h.diagnostics.trans h'.diagnostics⟩

/-- A quiet run adds no types. -/
theorem types (h : Quiet s s') : s'.types = s.types := by rw [h.eq]

/-- A quiet run binds nothing. -/
theorem bindings (h : Quiet s s') : s'.bindings = s.bindings := by rw [h.eq]

end Quiet

section

variable {place : Option NodeId}

/-- A report is quiet. -/
theorem report_quiet (h : report message arguments place env s = some (u, s')) : Quiet s s' := by
  simp only [report, getTree_bind, run_modify] at h
  subst h
  exact ⟨rfl, prefix_append _ _⟩

/-- A report is kept. -/
theorem diagnostics_ne_nil_of_report
    (h : report message arguments place env s = some (u, s')) : s'.diagnostics.toList ≠ [] := by
  simp only [report, getTree_bind, run_modify] at h
  subst h
  exact append_ne_nil_of_right_ne_nil _ (cons_ne_nil _ _)

/-- Something is reported before the answer is given. -/
theorem run_reported {a b : α}
    (h : (report message arguments place >>= fun _ => pure a) env s = some (b, s')) :
    b = a ∧ Quiet s s' ∧ s'.diagnostics.toList ≠ [] := by
  obtain ⟨_, hreport, rfl⟩ := run_bind_pure.mp h
  exact ⟨rfl, report_quiet hreport, diagnostics_ne_nil_of_report hreport⟩

end

/-- An internal error is raised and stands for the error type. -/
theorem run_internalError {cause : InternalError} :
    internalError cause env s = some (t, s') ↔ t = TypeTable.errorType ∧ s' = s.raise cause := by
  simp only [internalError, modify_bind, run_pure]

/-- What is not found is reported. -/
theorem foundOrReport_quiet {found answer : Option SymbolId} {name : String}
    (h : foundOrReport found message name node env s = some (answer, s')) :
    answer = found ∧ Quiet s s' := by
  simp only [foundOrReport] at h
  split at h
  · obtain ⟨rfl, hquiet, -⟩ := run_reported h
    exact ⟨rfl, hquiet⟩
  · obtain ⟨rfl, rfl⟩ := run_pure.mp h
    exact ⟨rfl, .refl _⟩

/-- The arguments that are passed on are as many as there are parameters, and each was given or is
the error type. -/
theorem fitArguments_quiet {count : Nat} {arguments fitted : List TypeId}
    (h : fitArguments node count arguments env s = some (fitted, s')) :
    Quiet s s' ∧ fitted.length = count ∧ ∀ t ∈ fitted, t ∈ arguments ∨ t = TypeTable.errorType := by
  rw [fitArguments] at h
  split at h
  · obtain ⟨rfl, hquiet, -⟩ := run_reported h
    refine ⟨hquiet, by simp; omega, fun t ht => ?_⟩
    exact (mem_append.mp ht).imp_right eq_of_mem_replicate
  · split at h
    · obtain ⟨rfl, hquiet, -⟩ := run_reported h
      exact ⟨hquiet, by simp; omega, fun t ht => .inl (mem_of_mem_take ht)⟩
    · obtain ⟨rfl, rfl⟩ := run_pure.mp h
      exact ⟨.refl _, by omega, fun t ht => .inl ht⟩

/-- A model is extended or copied if it does not lead back. Anything else is reported, but for open
template parameters and what could not be given a type. -/
theorem admitHeritage_cases
    (h : admitHeritage complaint model node source env s = some (answer, s')) :
    (answer = some source ∧ s' = s ∧ model ∉ s.types.baseChain source ∧
      ∃ m, s.types.shape? source = some (.model m)) ∨
    (answer = none ∧ Quiet s s' ∧ (s'.diagnostics.toList = [] →
      s.types.shape? source = some .templateParameter ∨ source = TypeTable.errorType) ∧
      (model ∈ s.types.baseChain source ∨ ∀ m, s.types.shape? source ≠ some (.model m))) := by
  simp only [admitHeritage, getTypes_bind] at h
  replace h := run_chosen h
  split at h
  next hshape =>
    obtain ⟨rfl, rfl⟩ := run_pure.mp h
    exact .inr ⟨rfl, .refl _, fun _ => .inl hshape, Or.inr (by simp [hshape])⟩
  next m hshape =>
    split at h
    next hmem =>
      simp only [Chosen, getTree_bind] at h
      obtain ⟨rfl, hquiet, hreported⟩ := run_reported h
      exact .inr ⟨rfl, hquiet, fun hnil => absurd hnil hreported, Or.inl hmem⟩
    next hnot =>
      obtain ⟨rfl, rfl⟩ := run_pure.mp h
      exact .inl ⟨rfl, rfl, hnot, m, hshape⟩
  next hother =>
    split at h
    · obtain ⟨rfl, hquiet, hreported⟩ := run_reported h
      exact .inr ⟨rfl, hquiet, fun hnil => absurd hnil hreported, Or.inr hother⟩
    next herror =>
      rw [Bool.not_eq_true, Bool.not_eq_false'] at herror
      obtain ⟨rfl, rfl⟩ := run_pure.mp h
      exact .inr ⟨rfl, .refl _, fun _ => .inr (of_decide_eq_true herror), Or.inr hother⟩

/-- A model that is extended or copied is the given one. -/
theorem admitHeritage_quiet
    (h : admitHeritage complaint model node source env s = some (answer, s')) :
    Quiet s s' ∧ ∀ id ∈ answer, id = source := by
  rcases admitHeritage_cases h with ⟨rfl, rfl, -⟩ | ⟨rfl, hquiet, -⟩
  · exact ⟨.refl _, fun id hid => (Option.some.inj hid).symm⟩
  · exact ⟨hquiet, by simp⟩

/-! ### Runs of decorators -/

/-- Between the states decorators were to be run on a type: they were tried one after the other, up
to a failure. -/
structure Decorated (target : TypeId) (applications : List DecoratorApplication) (s s' : State) :
    Prop where
  eq : s' = { s with
    diagnostics := s'.diagnostics
    record := s'.record
    attempts := s'.attempts
    finished := s'.finished
    failure := s'.failure } := by rfl
  diagnostics : s.diagnostics.toList <+: s'.diagnostics.toList := by exact prefix_rfl
  failure : s'.failure = s.failure ∨ ∃ name cause, s'.failure = some (.decorator name cause) := by
    exact .inl rfl
  finished : ∀ t ∈ s'.finished, t ∈ s.finished ∨ t = target := by exact fun _ => .inl
  tried : ∃ new, s'.attempts = s.attempts ++ new ∧
    (∀ a ∈ new, a.target = target ∧ a.context = s.context ∧ a.seen = s.types.get? target) ∧
    new.map Attempt.application <+: applications ∧ (s.failure ≠ none → new = []) ∧
    (s'.failure = none → new.map Attempt.application = applications) := by exact ⟨[], by simp⟩

namespace Decorated

variable {applications more : List DecoratorApplication}

section

variable (h : Decorated target applications s s')

include h

/-- Decorators add no types. -/
theorem types : s'.types = s.types := by rw [h.eq]

/-- Decorators are run in the context of the check. -/
theorem context : s'.context = s.context := by rw [h.eq]

/-- What is tried is tried on the type. -/
theorem attempts {a : Attempt} (ha : a ∈ s'.attempts) :
    a ∈ s.attempts ∨ a.target = target ∧ a.context = s.context := by
  obtain ⟨new, hnew, htried, -⟩ := h.tried
  rw [hnew] at ha
  exact (mem_append.mp ha).imp_right fun ha => ⟨(htried a ha).1, (htried a ha).2.1⟩

/-- A failure is not forgotten. -/
theorem failure_of_eq_none (hnone : s'.failure = none) :
    s.failure = none := by
  rcases h.failure with hsame | ⟨name, cause, hfailed⟩
  · exact hsame.symm.trans hnone
  · simp [hfailed] at hnone

end

/-- Decorators are tried one list after the other. -/
theorem trans (h : Decorated target applications s₁ s₂) (h' : Decorated target more s₂ s₃) :
    Decorated target (applications ++ more) s₁ s₃ := by
  obtain ⟨first, hfirst, htried, hprefix, hhalted, hall⟩ := h.tried
  obtain ⟨second, hsecond, htried', hprefix', hhalted', hall'⟩ := h'.tried
  refine ⟨by rw [h'.eq, h.eq], h.diagnostics.trans h'.diagnostics, ?_, fun t ht => ?_,
    first ++ second, ?_, ?_, ?_, fun hfailed => ?_, fun hnone => ?_⟩
  · exact h'.failure.elim (fun hsame => hsame ▸ h.failure) Or.inr
  · exact (h'.finished t ht).elim (h.finished t) Or.inr
  · rw [hsecond, hfirst, append_assoc]
  · rw [h.context, h.types] at htried'
    exact fun a ha => (mem_append.mp ha).elim (htried a) (htried' a)
  · -- nothing is tried after a failure
    rw [map_append]
    by_cases hnone : s₂.failure = none
    · rw [hall hnone]
      exact (prefix_append_right_inj _).mpr hprefix'
    · rw [hhalted' hnone, map_nil, append_nil]
      exact hprefix.trans (prefix_append _ _)
  · have hkept : s₂.failure ≠ none := fun hnone => hfailed (h.failure_of_eq_none hnone)
    rw [hhalted hfailed, hhalted' hkept, append_nil]
  · rw [map_append, hall (h'.failure_of_eq_none hnone), hall' hnone]

/-- A quiet run tries no decorator. -/
theorem ofQuiet (h : Quiet s s') : Decorated target [] s s' := by
  have hprefix := h.diagnostics
  rw [h.eq]
  exact { diagnostics := hprefix }

/-- No decorator has to be tried. -/
theorem refl (target : TypeId) (s : State) : Decorated target [] s s := .ofQuiet (.refl s)

/-- After a failure no decorator is tried. -/
theorem halted (target : TypeId) (applications : List DecoratorApplication)
    (h : s.failure ≠ none) : Decorated target applications s s :=
  { tried := ⟨[], by simp [h]⟩ }

end Decorated

/-- A failed decorator is reported, or stops the decorators after it. -/
theorem handleFailure_decorated {cause : DecoratorError}
    (h : handleFailure target application cause env s = some (u, s')) :
    Decorated target [] s s' := by
  simp only [handleFailure, read_bind] at h
  split at h
  · simp only [getTypes_bind] at h
    exact .ofQuiet (report_quiet h)
  · obtain rfl := run_modify.mp h
    exact { failure := .inr ⟨_, _, rfl⟩ }

/-- An attempt is noted. -/
theorem noteAttempt_decorated {outcome : Option DecoratorOutcome}
    (hnone : s.failure = none) (h : noteAttempt target application outcome env s = some (u, s')) :
    Decorated target [application] s s' := by
  obtain rfl := run_modify.mp h
  exact { tried := ⟨_, rfl, by simp [hnone]⟩ }

/-- A decorator that is applied does not fail by itself. -/
theorem applyDecorator_decorated {decorator : Decorator}
    {outcome : DecoratorOutcome}
    (h : applyDecorator decorator target application env s = some (outcome, s')) :
    s'.failure = s.failure ∧ Decorated target [] s s' := by
  simp only [applyDecorator, getTypes_bind, getTree_bind, get_bind, modify_bind, run_pure] at h
  obtain ⟨-, rfl⟩ := h
  exact ⟨rfl, {}⟩

/-- A decorator is tried unless one has failed. -/
theorem runDecorator_decorated
    (h : runDecorator target application env s = some (u, s')) :
    Decorated target [application] s s' := by
  simp only [runDecorator, get_bind] at h
  split at h
  next hfailed =>
    obtain ⟨-, rfl⟩ := run_pure.mp h
    exact .halted _ _ (Option.isSome_iff_ne_none.mp hfailed)
  next hnone =>
    rw [Option.not_isSome_iff_eq_none] at hnone
    simp only [read_bind] at h
    replace h := run_chosen h
    split at h
    · obtain ⟨_, s₁, hnote, h⟩ := run_bind.mp h
      exact (noteAttempt_decorated hnone hnote).trans (.ofQuiet (report_quiet h))
    · obtain ⟨outcome, s₁, happly, h⟩ := run_bind.mp h
      obtain ⟨_, s₂, hnote, h⟩ := run_bind.mp h
      obtain ⟨hsame, happlied⟩ := applyDecorator_decorated happly
      have hrun := happlied.trans (noteAttempt_decorated (hsame.trans hnone) hnote)
      replace h := run_chosen h
      split at h
      · obtain ⟨-, rfl⟩ := run_pure.mp h
        exact hrun
      · exact hrun.trans (handleFailure_decorated h)

/-- A type is noted as finished. -/
theorem noteFinished_decorated
    (h : noteFinished target env s = some (u, s')) : Decorated target [] s s' := by
  obtain rfl := run_modify.mp h
  exact { finished := fun _ ht => (mem_cons.mp ht).symm }

/-- Decorators are tried one after the other. -/
theorem runDecorators_decorated {applications : List DecoratorApplication}
    (h : runDecorators target applications env s = some (u, s')) :
    Decorated target applications s s' := by
  obtain ⟨_, s₁, hnote, hrun⟩ := run_bind.mp h
  refine (noteFinished_decorated hnote).trans ?_
  clear hnote h
  induction applications generalizing s₁ with
  | nil => exact run_forM_nil.mp hrun ▸ .refl _ _
  | cons application rest ih =>
    obtain ⟨s₂, hfirst, hrest⟩ := run_forM_cons.mp hrun
    exact (runDecorator_decorated hfirst).trans (ih s₂ hrest)

/-- The decorators of a type are tried. -/
theorem finishType_decorated (h : finishType type env s = some (u, s')) :
    Decorated type (s.types.decorators type) s s' := by
  simp only [finishType, getTypes_bind] at h
  exact runDecorators_decorated h

/-- Between the states decorators were run on a type if it is complete. -/
def Finished (finish : Bool) (type : TypeId) (s s' : State) : Prop :=
  s' = s ∨ finish = true ∧ Decorated type (s.types.decorators type) s s'

/-- Decorators add no types. -/
theorem Finished.types (h : Finished finish type s s') :
    s'.types = s.types := by
  rcases h with rfl | ⟨-, h⟩
  · rfl
  · exact h.types

/-- A complete type gets its decorators run. -/
theorem finishIf_finished (h : finishIf finish type env s = some (u, s')) :
    Finished finish type s s' := by
  rw [finishIf] at h
  split at h
  next hfinish =>
    exact .inr ⟨hfinish, finishType_decorated h⟩
  · exact .inl (run_pure.mp h).2

end ApiSchema.Checking
