import ApiSchema.Proofs.Checking.Requests
import ApiSchema.Proofs.Checking.Session

/-!
# Nested checks

The check of a node calls for checks of other nodes: what comes of it depends on the answer that a
check gives in the state that has been come to by then. The states that a session passes through are
those between its calls and those in which a nested check, at any depth, begins or ends. A check
that never ends has no answer; to follow it, checks that are nested too deeply are answered in some
way that leaves the types alone.

A lasting property of the type table holds in all these states. For if it did not hold in one in
which a check begins, the answer given there would make no difference: two checks that agree
wherever the property holds are coupled.
-/

namespace ApiSchema.Checking

variable {env : Environment} {check other deeper : Check} {node inner : NodeId} {s s' : State}
  {t : TypeId} {sound : TypeTable → Prop}

/-- Checks a node, where what is nested more deeply than `depth` is left to another check. -/
def checkDown (deeper : Check) : Nat → Check
  | 0 => deeper
  | depth + 1 => checkStep (checkDown deeper depth)

/-- Without any deeper checks this is the check of a node. -/
theorem checkDown_tooDeep (depth : Nat) : checkDown (fun _ => tooDeep) depth = checkNode depth := by
  induction depth with
  | zero => rfl
  | succ depth ih => rw [checkDown, ih, checkNode]

/-- A nested check is called for in a state: what comes of the check of a node depends on the answer
that is given there. -/
def CallsFor (env : Environment) (check : Check) (node : NodeId) (s : State) (inner : NodeId)
    (s' : State) : Prop :=
  ∃ other : Check, (∀ n r, n ≠ inner ∨ r ≠ s' → other n env r = check n env r) ∧
    checkStep other node env s ≠ checkStep check node env s

/-- The states in which the check of a node and the checks nested in it begin and end. -/
inductive Passes (env : Environment) (deeper : Check) :
    Nat → NodeId → State → State → Prop
  | begun (depth : Nat) (node : NodeId) (s : State) : Passes env deeper depth node s s
  | ended {depth : Nat} {node : NodeId} {s s' : State} {t : TypeId} :
    checkDown deeper depth node env s = some (t, s') → Passes env deeper depth node s s'
  | nested {depth : Nat} {node inner : NodeId} {s s₁ s₂ : State} :
    CallsFor env (checkDown deeper depth) node s inner s₁ → Passes env deeper depth inner s₁ s₂ →
    Passes env deeper (depth + 1) node s s₂

/-- The states that a session with the checker passes through: those between calls and those in
which checks begin and end. -/
inductive Passed (program : Program) (deeper : Check) : State → Prop
  | between {s : State} : Reached program s → Passed program deeper s
  | during {s s₁ s₂ s₃ : State} {depth : Nat} {node : NodeId} : Reached program s →
    prepare program.environment s = some ((), s₁) → Checked program.environment s₁ s₂ →
    Passes program.environment deeper depth node s₂ s₃ → Passed program deeper s₃

/-! ### Lasting properties in the course of checks -/

/-- The check keeps a property of the type table. -/
def Upholds (env : Environment) (sound : TypeTable → Prop) (check : Check) : Prop :=
  ∀ {n : NodeId} {r r' : State} {t : TypeId}, sound r.types → check n env r = some (t, r') →
    sound r'.types

section

variable (hlasting : TypeTable.Lasting sound)

include hlasting

/-- Checks that agree on sound tables are coupled. -/
theorem checkStep_follows (hupholds : Upholds env sound check)
    (hagree : ∀ n r, sound r.types → other n env r = check n env r) (hs : sound s.types)
    (hrun : checkStep check node env s = some (t, s')) :
    checkStep other node env s = some (t, s') ∧ sound s'.types := by
  let c := Coupling.within env hlasting
  have hcheck : c.KeepsCheck check other := by
    intro n r r' a r'' h hrun
    obtain rfl := State.eq_of_core_of_log h.core h.log
    exact ⟨r'', (hagree n r h.sound).trans hrun, rfl, rfl, hupholds h.sound hrun⟩
  obtain ⟨t', hrun', ht⟩ := Coupling.checkStep hcheck node ⟨rfl, rfl, hs⟩ hrun
  obtain rfl := State.eq_of_core_of_log ht.core ht.log
  exact ⟨hrun', ht.sound⟩

theorem Upholds.checkDown (hdeeper : Upholds env sound deeper) (depth : Nat) :
    Upholds env sound (checkDown deeper depth) := by
  induction depth with
  | zero => exact hdeeper
  | succ depth ih =>
    exact fun hs hrun => (checkStep_follows hlasting ih (fun _ _ _ => rfl) hs hrun).2

/-- A nested check begins where the property holds. -/
theorem CallsFor.upheld (h : CallsFor env check node s inner s') (hupholds : Upholds env sound check)
    (hs : sound s.types) : sound s'.types := by
  obtain ⟨other, hother, hdiffers⟩ := h
  by_contra hnot
  have hagree : ∀ n r, sound r.types → other n env r = check n env r := fun n r hr =>
    hother n r (.inr fun heq => hnot (heq ▸ hr))
  have hupholds' : Upholds env sound other := fun hr hrun =>
    hupholds hr ((hagree _ _ hr).symm.trans hrun)
  apply hdiffers
  cases hrun : Checking.checkStep check node env s with
  | some answer => exact (checkStep_follows hlasting hupholds hagree hs hrun).1
  | none =>
    cases hrun' : Checking.checkStep other node env s with
    | none => rfl
    | some answer =>
      have hback := checkStep_follows hlasting hupholds' (fun n r hr => (hagree n r hr).symm) hs hrun'
      exact absurd (hrun.symm.trans hback.1) (by simp)

/-- The property holds in all states in which nested checks begin and end. -/
theorem Passes.upheld {depth : Nat} (h : Passes env deeper depth node s s')
    (hdeeper : Upholds env sound deeper) (hs : sound s.types) : sound s'.types := by
  induction h with
  | begun => exact hs
  | ended hrun => exact hdeeper.checkDown hlasting _ hs hrun
  | nested hcalls _ ih => exact ih (hcalls.upheld hlasting (hdeeper.checkDown hlasting _) hs)

theorem Checked.upheld (h : Checked env s s') (hs : sound s.types) : sound s'.types := by
  have hnone : Upholds env sound fun _ => tooDeep := fun _ hrun => absurd hrun run_tooDeep
  refine h.preserves (P := fun s => sound s.types) hs fun depth hs hrun => ?_
  rw [← checkDown_tooDeep] at hrun
  exact hnone.checkDown hlasting depth hs hrun

/-- A lasting property that holds before anything has been checked holds in all states that a
session passes through. -/
theorem Passed.upheld {program : Program} (h : Passed program deeper s)
    (hdeeper : Upholds program.environment sound deeper)
    (hblank : ∀ bound merged s, Blank program.environment bound merged s → sound s.types) :
    sound s.types := by
  have hreached : ∀ {s}, Reached program s → sound s.types := fun h => by
    obtain ⟨_, merged, s₁, hs₁, hchk⟩ := h.checked
    exact hchk.upheld hlasting (hblank _ merged s₁ hs₁)
  cases h with
  | between h => exact hreached h
  | during h hprep hchk hpasses =>
    obtain ⟨_, -, ht⟩ := (Coupling.within program.environment hlasting).preparation.prepare
      ⟨rfl, rfl, hreached h⟩ hprep
    exact hpasses.upheld hlasting hdeeper (hchk.upheld hlasting ht.sound)

end

end ApiSchema.Checking
