import ApiSchema.Proofs.Checking.Nesting

/-!
# Base models never lead back

A model is given a base at two places, after a test that the base does not lead back to the model.
While a model is under construction other models of its chain may not have their bases yet, and what
is copied from a model includes its base, which is not tested. Still there is never a cycle, not
even in the middle of nested checks, because nothing happens between a test and the change that it
is for.
-/

namespace ApiSchema.Checking

variable {s : State}

/-- Before anything has been checked there are no models. -/
theorem Blank.acyclic {env : Environment} {bound : Bindings} {merged : Bool}
    (h : Blank env bound merged s) : s.types.Acyclic := by
  have hnone : ∀ id m, s.types.model? id ≠ some m := by
    intro id m hm
    rcases h.shape (TypeTable.model?_eq_some_iff.mp hm) with heq | ⟨n, heq⟩
    · simp at heq
    · simp at heq
  refine ⟨fun {id _ m} hm _ => absurd hm (hnone id m), fun id hcycle => ?_⟩
  obtain ⟨_, ⟨m, hm, -⟩, -⟩ := Relation.TransGen.head'_iff.mp hcycle
  exact hnone id m hm

/-- In every state that a session passes through, the base of a model is a model, and a walk along
bases never returns to a type that it has left. So it does not matter that the searches along bases
look out for repetitions, and the properties of a model with those it inherits are its own and then
those of its base. -/
theorem baseChains_acyclic {program : Program} {deeper : Check}
    (hdeeper : ∀ n r t r', deeper n program.environment r = some (t, r') → r'.types = r.types)
    (h : Passed program deeper s) :
    (∀ id m base, s.types.model? id = some m → m.base = some base →
      ∃ m', s.types.model? base = some m') ∧
    (∀ id, ¬ Relation.TransGen s.types.Extends id id) ∧
    (∀ id length, s.types.basesFrom length id = (s.types.baseChain id).take length) ∧
    ∀ id m, s.types.model? id = some m → s.types.inheritedProperties id =
      m.properties.values ++ (m.base.map s.types.inheritedProperties).getD [] := by
  have hupholds : Upholds program.environment TypeTable.Acyclic deeper := fun {n r r' t} hr hrun =>
    hdeeper n r t r' hrun ▸ hr
  have hacyclic : s.types.Acyclic :=
    h.upheld TypeTable.Lasting.acyclic hupholds fun _ _ _ hblank => hblank.acyclic
  refine ⟨fun id m base hm hbase => hacyclic.based hm hbase, hacyclic.irreflexive,
    fun id length => hacyclic.basesFrom_eq_take length id, fun id m hm => ?_⟩
  exact hacyclic.inheritedProperties_eq hm

/-- Three models that extend each other, and an array of the first:
`model Box extends Crate { size: string }`, `model Crate extends Pallet { lid: string }`,
`model Pallet extends Box {}` and `alias Boxes = Box[]`. -/
def piles : Program :=
  .ofFiles .default .empty [⟨"stack", [
    .modelDecl "Box" [] (some (.reference "Crate" [])) none [.required "size" "string"] [],
    .modelDecl "Crate" [] (some (.reference "Pallet" [])) none [.required "lid" "string"] [],
    .modelDecl "Pallet" [] (some (.reference "Box" [])) none [] [],
    .aliasDecl "Boxes" [] (.array (.reference "Box" []))]⟩]

/-- The check of an array calls for the check of its elements at once. -/
theorem callsFor_element {env : Environment} {check : Check} {node element : NodeId} {t : TypeId}
    {s' : State} (hkind : env.tree.kind? node = some (.arrayExpression element))
    (hcheck : check element env s = some (t, s')) : CallsFor env check node s element s := by
  classical
  refine ⟨fun n env r => if n = element ∧ r = s then none else check n env r, fun n r hne => ?_,
    fun heq => ?_⟩
  · exact if_neg fun ⟨hn, hr⟩ => hne.elim (· hn) (· hr)
  · have hstep : ∀ check, checkStep check node env s = checkArray check node element env s := by
      intro check
      rw [checkStep, getTree_bind, hkind]
    rw [hstep, hstep] at heq
    have hrun : checkArray check node element env s =
        some (s'.types.nextId, s'.addRow ⟨some node, .array t⟩) :=
      run_bind.mpr ⟨t, s', hcheck, rfl⟩
    obtain ⟨_, _, hnone, -⟩ := run_bind.mp (heq.trans hrun)
    simp at hnone

/-- The check of the array calls for the check of a box. When that has ended, and the array itself
is still to be entered, crates are pallets and pallets are boxes, and boxes are nothing else. -/
theorem baseChains_acyclic_piles :
    ∃ s, Passed piles (fun _ => tooDeep) s ∧
      s.types.basesFrom 9 ⟨3⟩ = [⟨3⟩, ⟨4⟩, ⟨2⟩] ∧ s.types.baseChain ⟨3⟩ = [⟨3⟩, ⟨4⟩, ⟨2⟩] ∧
      ¬ Relation.TransGen s.types.Extends ⟨2⟩ ⟨2⟩ := by
  have hrun : ((prepare piles.environment (.initial piles.bindings)).any fun prepared =>
      (checkNode 11 ⟨36⟩ piles.environment prepared.2).any fun outcome =>
        outcome.2.types.baseChain ⟨3⟩ = [⟨3⟩, ⟨4⟩, ⟨2⟩]) = true := by decide +kernel
  obtain ⟨⟨_, s₁⟩, hprepare, hrun⟩ := (Option.any_eq_true _ _).mp hrun
  obtain ⟨⟨t, s⟩, hrun, hchain⟩ := (Option.any_eq_true _ _).mp hrun
  have hkind : piles.environment.tree.kind? ⟨37⟩ = some (.arrayExpression ⟨36⟩) := by
    decide +kernel
  have hbox : checkDown (fun _ => tooDeep) 11 ⟨36⟩ piles.environment s₁ = some (t, s) := by
    rw [checkDown_tooDeep, hrun]
  have hpasses : Passes piles.environment (fun _ => tooDeep) 12 ⟨37⟩ s₁ s :=
    .nested (callsFor_element hkind hbox) (.ended hbox)
  have hpassed : Passed piles (fun _ => tooDeep) s :=
    .during (.initial _ _ _) hprepare .refl hpasses
  obtain ⟨-, hacyclic, hwalk, -⟩ :=
    baseChains_acyclic (fun _ _ _ _ hrun => absurd hrun run_tooDeep) hpassed
  have hchain : s.types.baseChain ⟨3⟩ = [⟨3⟩, ⟨4⟩, ⟨2⟩] := of_decide_eq_true hchain
  exact ⟨s, hpassed, by rw [hwalk, hchain]; rfl, hchain, hacyclic ⟨2⟩⟩

end ApiSchema.Checking
