import ApiSchema.Proofs.Checking.Coupling
import ApiSchema.Proofs.Checking.Session

/-!
# Requests

A list of requests is performed if all of them are answered with checks nested deeply enough; then
answers and state do not depend on how deep that is. In coupled runs the same requests have the same
answers.
-/

namespace ApiSchema.Checking

variable {env : Environment} {s s' t t' : State} {depth depth' : Nat} {requests : List Request}
  {answers answers' : List (Option TypeId)}

/-- The answer of a check of the program is the failure that the state then has. -/
theorem checkProgram_failure {answer : Option CheckError}
    (hrun : checkProgram depth env s = some (answer, s')) : answer = s'.failure := by
  obtain ⟨_, s₁, -, hrun⟩ := run_bind.mp hrun
  simp only [getTree_bind] at hrun
  obtain ⟨_, s₂, -, hrun⟩ := run_bind.mp hrun
  simp only [get_bind] at hrun
  obtain ⟨rfl, rfl⟩ := run_pure.mp hrun
  rfl

namespace Coupling

variable {c : Coupling}

theorem checkFile (h : depth ≤ depth') (file : NodeId) :
    c.Keeps (checkFile depth file) (checkFile depth' file) := by
  refine bind c.preparation.prepare fun _ => c.getTree_bind ?_
  split
  · exact c.rules.forM fun statement _ => c.rules.discard (checkNode h statement)
  · exact c.pure _

/-- The answer of a check of the program is part of the log, and so it is left out. -/
theorem checkProgram (h : depth ≤ depth') :
    c.Keeps (Functor.discard (checkProgram depth)) (Functor.discard (checkProgram depth')) := by
  intro s s' u t hs hrun
  obtain ⟨answer, hrun⟩ := run_discard.mp hrun
  obtain ⟨_, s₁, hprep, hrun⟩ := run_bind.mp hrun
  obtain ⟨s₁', hprep', h₁⟩ := c.preparation.prepare hs hprep
  simp only [Checking.getTree_bind] at hrun
  obtain ⟨_, s₂, hfiles, hrun⟩ := run_bind.mp hrun
  obtain ⟨s₂', hfiles', h₂⟩ := c.rules.forM (fun file _ => checkFile h file) h₁ hfiles
  simp only [Checking.get_bind] at hrun
  obtain ⟨-, rfl⟩ := run_pure.mp hrun
  refine ⟨s₂', run_discard.mpr ⟨s₂'.failure, run_bind.mpr ⟨_, s₁', hprep', ?_⟩⟩, h₂⟩
  rw [Checking.getTree_bind, c.tree]
  exact run_bind.mpr ⟨_, s₂', hfiles', rfl⟩

theorem performAll (h : depth ≤ depth') (requests : List Request) :
    c.Keeps (performAll depth requests) (performAll depth' requests) := by
  refine c.rules.mapM fun request _ => ?_
  cases request with
  | program => exact bind (checkProgram h) fun _ => c.pure _
  | file id => exact bind (checkFile h id) fun _ => c.pure _
  | node id => exact bind (bind c.preparation.prepare fun _ => checkNode h id) fun _ => c.pure _

/-- Requests that are answered in the first run are answered in the second, and alike. -/
theorem performs (c : Coupling)
    (hs : Coupled c.relation c.sound s s') (hrun : Performs c.left requests s answers t) :
    ∃ t', Performs c.right requests s' answers t' ∧ Coupled c.relation c.sound t t' := by
  obtain ⟨depth, hrun⟩ := hrun
  obtain ⟨t', hrun', ht⟩ := c.performAll (Nat.le_refl depth) requests hs hrun
  exact ⟨t', ⟨depth, hrun'⟩, ht⟩

end Coupling

/-- More room for nesting changes no answer. -/
theorem performAll_mono (h : depth ≤ depth')
    (hrun : performAll depth requests env s = some (answers, s')) :
    performAll depth' requests env s = some (answers, s') := by
  obtain ⟨t, hrun', ht⟩ := (Coupling.within env .trivial).performAll h requests ⟨rfl, rfl, trivial⟩ hrun
  rwa [State.eq_of_core_of_log ht.core ht.log]

/-- Requests have one answer each and lead to one state. -/
theorem Performs.unique (h : Performs env requests s answers t)
    (h' : Performs env requests s answers' t') : answers' = answers ∧ t' = t := by
  obtain ⟨depth, hrun⟩ := h
  obtain ⟨depth', hrun'⟩ := h'
  have hmax := performAll_mono (Nat.le_max_left depth depth') hrun
  rw [performAll_mono (Nat.le_max_right depth depth') hrun'] at hmax
  exact Prod.mk.inj (Option.some.inj hmax)

end ApiSchema.Checking
