import ApiSchema.Proofs.Checking.Referents
import ApiSchema.Proofs.Memoization.UniqueTypes
import ApiSchema.Proofs.Models.Aside

/-!
# What models read

Whatever a model spreads or is like is read right after it has been checked, so each such reading is
of what the check of a node answered. If the node is a reference that leads to a model statement,
then the reference was noted, and what was read is a type of that statement: its declared type, if
it has no template parameters.
-/

namespace ApiSchema.Checking

open State

variable {env : Environment} {check : Check} {s s' : State} {r : Reading} {own : Option TypeId}
  {template : Option NodeId} {floor : Nat} {known : List TypeId} {P : List TypeId → Prop}
  {node declaration target : NodeId} {arguments : List NodeId} {t : TypeId}

/-! ### Answers of checks -/

/-- What was read is what the check of its place answered, as it was then. -/
def Reading.Answered (env : Environment) (s : State) (r : Reading) : Prop :=
  ∃ depth s₀ s₁, checkNode depth r.place env s₀ = some (r.source, s₁) ∧
    r = s₁.reading r.reader r.place r.use r.source ∧ Predates s₁ s

/-- All that was read to be copied is what checks answered. -/
def Attested (env : Environment) (s : State) : Prop :=
  ∀ r ∈ s.readings, r.use ≠ .inherited → r.Answered env s

/-- Later changes do not touch what was read before. -/
theorem Attested.predates (h : Attested env s) (hlater : Predates s s')
    (hreads : s'.readings = s.readings) : Attested env s' := by
  intro r hr huse
  obtain ⟨depth, s₀, s₁, hrun, heq, hbefore⟩ := h r (hreads ▸ hr) huse
  exact ⟨depth, s₀, s₁, hrun, heq, hbefore.trans hlater⟩

/-- A reading is noted after the check that it is of. -/
theorem Attested.note (h : Attested env s) (hnested : ∃ depth, check = checkNode depth)
    (hanswered : r.AnsweredBy env check own s) :
    Attested env { s with readings := r :: s.readings } := by
  have hlater : Predates s { s with readings := r :: s.readings } :=
    { (Aside.refl s).toPredates with }
  obtain ⟨depth, rfl⟩ := hnested
  intro q hq huse
  rcases List.mem_cons.mp hq with rfl | hq
  · rcases hanswered with hinherited | ⟨s₀, s₁, hrun, heq, hframe⟩
    · exact absurd hinherited huse
    · exact ⟨depth, s₀, s₁, hrun, heq, hframe.predates.trans hlater⟩
  · obtain ⟨depth, s₀, s₁, hrun, heq, hbefore⟩ := h q hq huse
    exact ⟨depth, s₀, s₁, hrun, heq, hbefore.trans hlater⟩

theorem Stepwise.attested (own : Option TypeId) :
    Stepwise env own fun s s' => Attested env s → Attested env s' :=
  .ofAside (fun haside h => h.predates haside.toPredates haside.readings) fun {s _ node _ _} _ _ h =>
    have hframe : Frame none s (s.addRow ⟨some node, _⟩) := .addRow (by simp)
    h.predates hframe.predates rfl

section

variable (hcheck : Relates env (fun s s' => Attested env s → Attested env s') check)

include hcheck

/-- Work on a type keeps what is read attested. -/
theorem Attested.leads (h : Attested env s)
    (hleads : Leads env check template own floor s known s' P) : Attested env s' := by
  refine (Stepwise.attested own).ofLeads hcheck (fun {id s₁ _ f} hown _ hamended h => ?_)
    (fun _ _ hanswered h => h.note hcheck.nested hanswered) hleads h
  subst hown
  have hframe : Frame (some id) s₁ (s₁.modifyTypes fun types => types.modifyShape id f) :=
    .modifyOwn fun hshape => (hamended hshape).grown
  exact h.predates hframe.predates rfl

end

/-- All checks keep what is read attested. -/
theorem Evolution.attested (hwf : env.tree.WellFormed) :
    Evolution env fun s s' => Attested env s → Attested env s' := by
  refine .ofAside hwf Stepwise.attested
    (fun haside h => h.predates haside.toPredates haside.readings)
    (fun hcheck hanswered _ _ h => h.note hcheck.nested hanswered) ?_ ?_
  · intro check node s s' key parts m hcheck hkind hprops hbase hbuild h
    have hopened : Predates s (s.opened node key (.model m) [s.types.nextId]) :=
      { (Aside.refl s).toPredates with grows := .push _ _ }
    have hbuilt := Built.model hkind hprops hbase hbuild
    obtain ⟨s₁, hcomps⟩ := hbuilt.completes hwf hcheck.framed
    obtain ⟨finish, hfin, -⟩ := hcomps.finished
    have haside := Aside.finished hfin
    have hfilled := (Attested.leads hcheck (h.predates hopened rfl) hcomps.filled).predates
      haside.toPredates haside.readings
    exact hfilled.predates { (Aside.refl s').toPredates with } rfl
  · intro check node s s' members hcheck hkind hrun h
    have hopened : Predates s (s.drafted node) :=
      { (Aside.refl s).toPredates with grows := .push _ _ }
    have hfilled := Attested.leads hcheck (h.predates hopened rfl)
      (checkExpression_leads hwf hcheck.framed hkind hrun)
    exact hfilled.predates { (Aside.refl s').toPredates with } rfl

/-! ### References -/

/-- A reference that leads to a declaration is noted, with what it is found to stand for. -/
theorem checkNode_notes (hwf : env.tree.WellFormed) {depth : Nat}
    (hkind : env.tree.kind? node = some (.typeReference target arguments))
    (hleads : s.declarationOf? env.tree node = some declaration)
    (hrun : checkNode depth node env s = some (t, s')) :
    ∃ fitted, ⟨node, declaration, fitted, t⟩ ∈ s'.references ∧
      (env.tree.templateParameters declaration = [] → fitted = []) := by
  cases depth with
  | zero => exact absurd hrun run_checkNode_zero
  | succ depth =>
    simp only [checkNode, checkStep, getTree_bind, hkind] at hrun
    obtain ⟨id, symbol, s₁, given, s₂, -, -, -, -, hrun⟩ :=
      run_checkTypeReference hwf hkind hleads hrun
    obtain ⟨-, hparams, known, s₃, s₄, s₅, fitted, -, -, -, -, -, rfl⟩ | ⟨-, s₃, -, hquiet⟩ :=
      checkDeclaredReference_cases hrun
    · exact ⟨fitted, List.mem_cons_self, fun hnone => absurd hnone hparams⟩
    · rw [hquiet.eq]
      exact ⟨[], List.mem_cons_self, fun _ => rfl⟩

/-- What was read at a reference is what the reference was found to stand for. -/
theorem Reading.Answered.noted (hwf : env.tree.WellFormed) (h : r.Answered env s)
    (hkind : env.tree.kind? r.place = some (.typeReference target arguments))
    (hleads : s.declarationOf? env.tree r.place = some declaration) :
    ∃ fitted, ⟨r.place, declaration, fitted, r.source⟩ ∈ s.references ∧
      (env.tree.templateParameters declaration = [] → fitted = []) := by
  obtain ⟨depth, s₀, s₁, hrun, -, hlater⟩ := h
  have hbefore := ((checkNode_framed hwf depth).frame hrun).predates.trans hlater
  rw [declarationOf?_congr hbefore.bindings hbefore.mergedSymbols] at hleads
  obtain ⟨fitted, hmem, hplain⟩ := checkNode_notes hwf hkind hleads hrun
  exact ⟨fitted, hlater.references hmem, hplain⟩

/-! ### Sessions -/

section

variable {program : Program} (h : Reached program s)

include h

/-- In all states of a session what was read to be copied is what checks answered. -/
theorem Reached.attested : Attested program.environment s := by
  have hwf := h.wellFormed
  obtain ⟨_, merged, s₁, hblank, hchk⟩ := h.checked
  exact (Evolution.attested hwf).checked hwf hchk fun r hr => by simp [hblank.readings] at hr

end

end ApiSchema.Checking
