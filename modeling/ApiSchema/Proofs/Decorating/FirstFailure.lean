import ApiSchema.Proofs.Decorating.Noninterference

/-!
# The first failing decorator

In a batch run the first decorator that fails is the last one that is run: what it leaves behind is
the final record, and its failure is the answer of every later check. In a design-time build the
failure is reported and decorators are run further on. Apart from that the two runs agree: the
decorators that the batch run has run are those of the design-time build up to the first failure.
-/

namespace ApiSchema

open List

variable {α : Type} {p q : α → Bool} {failure : CheckError} {log : Log}

/-- A list up to the first element with a property, which is included. -/
def throughFirst (p : α → Bool) : List α → List α
  | [] => []
  | x :: xs => if p x then [x] else x :: throughFirst p xs

theorem throughFirst_eq_self {xs : List α} (h : ∀ x ∈ xs, p x = false) :
    throughFirst p xs = xs := by
  induction xs with
  | nil => rfl
  | cons x xs ih =>
    rw [throughFirst, if_neg (by simp [h x (.head _)]),
      ih fun y hy => h y (mem_cons_of_mem x hy)]

theorem throughFirst_append_cons {xs ys : List α} {x : α} (h : ∀ y ∈ xs, p y = false)
    (hx : p x = true) : throughFirst p (xs ++ x :: ys) = xs ++ [x] := by
  induction xs with
  | nil => simp [throughFirst, hx]
  | cons y xs ih =>
    rw [cons_append, throughFirst, if_neg (by simp [h y (.head _)]),
      ih fun z hz => h z (mem_cons_of_mem y hz), cons_append]

/-- Leaving out elements that do not have the property does not move the cut. -/
theorem throughFirst_filter (h : ∀ x, p x = true → q x = true) (xs : List α) :
    throughFirst p (xs.filter q) = (throughFirst p xs).filter q := by
  induction xs with
  | nil => rfl
  | cons x xs ih =>
    by_cases hp : p x = true
    · simp [throughFirst, hp, h x hp]
    · by_cases hq : q x = true
      · simp [throughFirst, hp, hq, ih]
      · simp [throughFirst, hp, hq, ih]

namespace Checking

variable {env env' : Environment} {s s' t t' : State} {target : TypeId}
  {application : DecoratorApplication}

/-- Why an attempt to run a decorator failed, if it was run and failed. -/
def Attempt.cause? (a : Attempt) : Option DecoratorError := a.outcome.bind DecoratorOutcome.failure

/-- The decorators that were run, with what they left behind, oldest first. -/
def State.invocations (s : State) : List Attempt := s.attempts.filter fun a => a.outcome.isSome

/-! ### Batch and design-time runs side by side -/

/-- How the log of a batch run is related to that of a design-time build. -/
inductive Cut (batch design : Log) : Prop
  /-- Nothing has failed so far. -/
  | whole : (∀ a ∈ design.attempts, a.cause? = none) → batch.attempts = design.attempts →
    batch.record = design.record → batch.failure = design.failure → Cut batch design
  /-- The batch run has ended with a failure, and the other one has run the same decorators up to
  there. -/
  | ended {kept rest : List Attempt} {failing : Attempt} {cause : DecoratorError} :
    (∀ a ∈ kept, a.cause? = none) → failing.outcome = some ⟨batch.record, some cause⟩ →
    batch.failure = some (.decorator failing.application.name cause) →
    batch.attempts = kept ++ [failing] → design.attempts = kept ++ failing :: rest →
    Cut batch design

namespace Cut

variable {batch design : Log}

theorem add (d : Diagnostic) (h : Cut batch design) : Cut (batch.add d) (design.add d) := by
  cases h with
  | whole hnone hatts hrec hfail => exact .whole hnone hatts hrec hfail
  | ended hnone houtcome hfail hbatch hdesign =>
    exact .ended hnone houtcome hfail hbatch hdesign

theorem fail (cause : InternalError) (h : Cut batch design) :
    Cut (batch.fail cause) (design.fail cause) := by
  cases h with
  | whole hnone hatts hrec hfail =>
    exact .whole hnone hatts hrec (congrArg (Option.or · _) hfail)
  | ended hnone houtcome hfail hbatch hdesign =>
    exact .ended hnone houtcome (by rw [Log.fail, hfail, Option.some_or]) hbatch hdesign

/-- The attempts of the batch run are those of the other one up to the first that failed. -/
theorem attempts_eq (h : Cut batch design) :
    batch.attempts = throughFirst (fun a => a.cause?.isSome) design.attempts := by
  cases h with
  | whole hnone hatts =>
    rw [throughFirst_eq_self fun a ha => by simp [hnone a ha], hatts]
  | ended hnone houtcome _ hbatch hdesign =>
    rw [hbatch, hdesign, throughFirst_append_cons fun a ha => by simp [hnone a ha]]
    simp [Attempt.cause?, houtcome]

theorem eq_of_none (h : Cut batch design) (hnone : ∀ a ∈ design.attempts, a.cause? = none) :
    batch.record = design.record ∧ batch.failure = design.failure := by
  cases h with
  | whole _ _ hrec hfail => exact ⟨hrec, hfail⟩
  | @ended kept rest failing cause _ houtcome _ _ hdesign =>
    have hcause := hnone failing (by simp [hdesign])
    simp [Attempt.cause?, houtcome] at hcause

/-- A failed attempt in the batch run has left the final record behind and is the failure. -/
theorem of_cause (h : Cut batch design) {a : Attempt} (ha : a ∈ batch.attempts)
    {cause : DecoratorError} (hcause : a.cause? = some cause) :
    a.outcome = some ⟨batch.record, some cause⟩ ∧
      batch.failure = some (.decorator a.application.name cause) := by
  cases h with
  | whole hnone hatts =>
    rw [hnone a (hatts ▸ ha)] at hcause
    simp at hcause
  | ended hnone houtcome hfail hbatch _ =>
    rw [hbatch, mem_append, mem_singleton] at ha
    rcases ha with hkept | rfl
    · rw [hnone a hkept] at hcause
      simp at hcause
    · rw [Attempt.cause?, houtcome] at hcause
      cases hcause
      exact ⟨houtcome, hfail⟩

end Cut

/-- A decorator that is run adds at most one attempt. -/
theorem Log.attempts_decorate (log : Log) :
    ∃ more, (log.decorate env s target application).attempts = log.attempts ++ more := by
  rw [decorate]
  split
  · exact ⟨[], (append_nil _).symm⟩
  · split
    · exact ⟨[_], rfl⟩
    · dsimp only
      split
      · exact ⟨[_], rfl⟩
      · split <;> exact ⟨[_], rfl⟩

/-- After a failure no decorator is run. -/
theorem Log.decorate_of_failure (h : log.failure = some failure) :
    log.decorate env s target application = log :=
  if_pos (by simp [h])

/-- A decorator that is run in both runs keeps them related: if it fails, the batch run ends. -/
theorem Cut.decorate {tree : Tree} {registry : Registry} {batch design : Log} (s : State)
    (target : TypeId) (application : DecoratorApplication) (h : Cut batch design) :
    Cut (batch.decorate ⟨tree, registry, false⟩ s target application)
      (design.decorate ⟨tree, registry, true⟩ s target application) := by
  cases h with
  | @ended kept rest failing cause hnone houtcome hfail hbatch hdesign =>
    rw [Log.decorate_of_failure hfail]
    obtain ⟨more, hmore⟩ := design.attempts_decorate
    refine @Cut.ended _ _ kept (rest ++ more) failing cause hnone houtcome hfail hbatch ?_
    rw [hmore, hdesign, append_assoc, cons_append]
  | whole hnone hatts hrec hfail =>
    have hlater : ∀ a : Attempt, a.cause? = none →
        ∀ b ∈ design.attempts ++ [a], b.cause? = none := by
      intro a ha b hb
      rcases mem_append.mp hb with hold | hnew
      · exact hnone b hold
      · exact mem_singleton.mp hnew ▸ ha
    -- The runs take the same way until a decorator fails.
    rw [Log.decorate, Log.decorate, hfail, hrec]
    split
    · exact .whole hnone hatts hrec hfail
    · cases registry.find? application.path with
      | none => exact .whole (hlater _ rfl) (by simp [Log.note, Log.add, hatts]) hrec hfail
      | some decorator =>
        dsimp only
        generalize decorator _ design.record = outcome
        cases hcause : outcome.failure with
        | none => exact .whole (hlater _ hcause) (by simp [Log.note, hatts]) rfl rfl
        | some cause =>
          refine @Cut.ended _ _ design.attempts []
            ⟨target, application, s.context, some outcome, s.types.get? target⟩ cause hnone ?_ rfl
            (by simp [Log.note, hatts]) rfl
          exact congrArg some (congrArg (DecoratorOutcome.mk _) hcause)

/-- A batch run beside the design-time build with the same decorators. -/
def Coupling.cut (tree : Tree) (registry : Registry) : Coupling :=
  .ofLogs tree registry registry false true Cut Cut.add Cut.fail Cut.decorate

/-! ### After a failure -/

/-- The log has a given failure, record and list of attempts. -/
def Log.Fixed (attempts : List Attempt) (record : StateMap) (failure : CheckError) (log : Log) :
    Prop :=
  log.attempts = attempts ∧ log.record = record ∧ log.failure = some failure

/-- After a failure nothing is added to the record and the attempts, and the failure stays. -/
def Coupling.fixed (env : Environment) (attempts : List Attempt) (record : StateMap)
    (failure : CheckError) : Coupling :=
  .ofLogs env.tree env.registry env.registry env.designTime env.designTime
    (fun log _ => log.Fixed attempts record failure) (fun _ h => h)
    (fun cause h => ⟨h.1, h.2.1, by rw [Log.fail, h.2.2, Option.some_or]⟩) fun _ _ _ h => by rwa [Log.decorate_of_failure h.2.2]

theorem Performs.of_failure {requests : List Request} {answers : List (Option TypeId)}
    (h : Performs env requests s answers t) (hfail : s.failure = some failure) :
    t.attempts = s.attempts ∧ t.record = s.record ∧ t.failure = some failure := by
  obtain ⟨t', -, ht⟩ := (Coupling.fixed env s.attempts s.record failure).performs
    ⟨rfl, ⟨rfl, rfl, hfail⟩, trivial⟩ h
  exact ht.log

theorem performs_of_checkProgram {depth : Nat} {answer : Option CheckError}
    (hrun : checkProgram depth env s = some (answer, t)) :
    Performs env [.program] s [none] t := by
  refine ⟨depth, run_mapM_cons.mpr ⟨none, t, [], ?_, rfl, rfl⟩⟩
  exact run_bind.mpr ⟨⟨⟩, t, run_discard.mpr ⟨answer, hrun⟩, rfl⟩

/-- The decorators that a batch run has run are those of the design-time build up to the first one
that fails, all of them if none does, and each left the same record behind. Without a failing
decorator the runs agree in record and failure. A failing one in the batch run determines its final
record and failure; whatever is asked of the checker after that, no further decorator is run, the
record and the failure stay, and each check of the program answers with that failure. -/
theorem batch_invocations_eq_throughFirst (tree : Tree) (bindings : Bindings)
    (registry : Registry) (requests : List Request) {answers : List (Option TypeId)}
    {batch : State}
    (hbatch : Performs ⟨tree, registry, false⟩ requests (.initial bindings) answers batch) :
    (∃ answers' design,
      Performs ⟨tree, registry, true⟩ requests (.initial bindings) answers' design) ∧
    ∀ answers' design,
      Performs ⟨tree, registry, true⟩ requests (.initial bindings) answers' design →
      batch.invocations = throughFirst (fun a => a.cause?.isSome) design.invocations ∧
      ((∀ a ∈ design.invocations, a.cause? = none) →
        batch.record = design.record ∧ batch.failure = design.failure) ∧
      ∀ a ∈ batch.invocations, ∀ cause, a.cause? = some cause →
        a.outcome = some ⟨batch.record, some cause⟩ ∧
        batch.failure = some (.decorator a.application.name cause) ∧
        ∀ more answers' later,
          Performs ⟨tree, registry, false⟩ more batch answers' later →
          later.invocations = batch.invocations ∧ later.record = batch.record ∧
            later.failure = batch.failure ∧
            ∀ depth answer last,
              checkProgram depth ⟨tree, registry, false⟩ later = some (answer, last) →
              answer = some (.decorator a.application.name cause) := by
  have hinitial : Cut (State.initial bindings).log (State.initial bindings).log :=
    .whole (fun a ha => absurd ha not_mem_nil) rfl rfl rfl
  obtain ⟨design₀, hdesign, hcoupled⟩ :=
    (Coupling.cut tree registry).performs ⟨rfl, hinitial, trivial⟩ hbatch
  refine ⟨⟨answers, design₀, hdesign⟩, fun answers' design hother => ?_⟩
  obtain ⟨-, rfl⟩ := Performs.unique hdesign hother
  have hcut : Cut batch.log design.log := hcoupled.log
  -- An attempt that failed is one that was run.
  have hrun : ∀ a : Attempt, a.cause?.isSome = true → a.outcome.isSome = true := by
    intro a ha
    cases houtcome : a.outcome with
    | none => simp [Attempt.cause?, houtcome] at ha
    | some outcome => rfl
  refine ⟨?_, fun hnone => hcut.eq_of_none fun a ha => ?_, fun a ha cause hcause => ?_⟩
  · rw [State.invocations, State.invocations, throughFirst_filter hrun]
    exact congrArg (List.filter _) hcut.attempts_eq
  · by_cases hinvoked : a.outcome.isSome = true
    · exact hnone a (mem_filter.mpr ⟨ha, hinvoked⟩)
    · simp only [Option.isSome_iff_ne_none, ne_eq, Decidable.not_not] at hinvoked
      simp [Attempt.cause?, hinvoked]
  · obtain ⟨houtcome, hfailure⟩ := hcut.of_cause (mem_filter.mp ha).1 hcause
    have hbatchFailure : batch.failure = some (.decorator a.application.name cause) := hfailure
    refine ⟨houtcome, hfailure, fun more answers' later hlater => ?_⟩
    obtain ⟨hattempts, hrecord, hkept⟩ := hlater.of_failure hbatchFailure
    refine ⟨congrArg (List.filter _) hattempts, hrecord, hkept.trans hbatchFailure.symm,
      fun depth answer last hcheck => ?_⟩
    rw [checkProgram_failure hcheck]
    exact ((performs_of_checkProgram hcheck).of_failure hkept).2.2

/-- Three models, of which the second has a documentation that is no text:
`@doc("first") model First { }`, `@doc(true) model Second { }` and `@doc("third") model Third {
}`. -/
def documented : Program :=
  ⟨.default, [], .ofFiles [⟨"documented", [
    .modelDecl "First" [] none none [] [.mk "doc" [.string "first"]],
    .modelDecl "Second" [] none none [] [.mk "doc" [.boolean true]],
    .modelDecl "Third" [] none none [] [.mk "doc" [.string "third"]]]⟩],
    Documentation.install .empty⟩

/-- The design-time build documents the third model, the batch run ends at the second one. -/
theorem batch_invocations_eq_throughFirst_documented :
    ∃ answers batch answers' design,
      Performs ⟨documented.tree, documented.registry, false⟩ [.program]
        (.initial documented.bindings) answers batch ∧
      Performs ⟨documented.tree, documented.registry, true⟩ [.program]
        (.initial documented.bindings) answers' design ∧
      batch.invocations = throughFirst (fun a => a.cause?.isSome) design.invocations ∧
      design.invocations.map (fun a => a.cause?.isSome) = [false, true, false] ∧
      ∃ a ∈ batch.invocations, ∃ cause, a.cause? = some cause ∧
        a.outcome = some ⟨batch.record, some cause⟩ ∧
        batch.failure = some (.decorator a.application.name cause) := by
  obtain ⟨answers, batch, hbatch, hfails⟩ := @exists_performs
    ⟨documented.tree, documented.registry, false⟩ (.initial documented.bindings) 12 [.program]
    (fun outcome => ∃ a ∈ outcome.2.invocations, a.cause?.isSome = true) _ (by decide +kernel)
  obtain ⟨answers', design, hdesign, hinvocations⟩ := @exists_performs
    ⟨documented.tree, documented.registry, true⟩ (.initial documented.bindings) 12 [.program]
    (fun outcome => outcome.2.invocations.map (fun a => a.cause?.isSome) = [false, true, false]) _
    (by decide +kernel)
  obtain ⟨hcut, -, hfailing⟩ := (batch_invocations_eq_throughFirst documented.tree
    documented.bindings documented.registry [.program] hbatch).2 answers' design hdesign
  obtain ⟨a, ha, hsome⟩ := hfails
  obtain ⟨cause, hcause⟩ := Option.isSome_iff_exists.mp hsome
  obtain ⟨houtcome, hfailure, -⟩ := hfailing a ha cause hcause
  exact ⟨answers, batch, answers', design, hbatch, hdesign, hcut, hinvocations, a, ha, cause,
    hcause, houtcome, hfailure⟩

end Checking

end ApiSchema
