import ApiSchema.Proofs.Checking.Evolution
import ApiSchema.Proofs.Checking.Referents
import ApiSchema.Proofs.Checking.Rules

/-!
# Checks that have answers

A check has no answer only if it is nested too deeply. So the check of a node has one as soon as the
checks that it calls for have: those of the expressions inside the node and, for a reference, that
of the declaration it leads to. The states that these checks begin in retain what was known when the
node was entered. Only declarations without template parameters are dealt with, so that there is no
template context.
-/

namespace ApiSchema.Checking

variable {α β : Type} {env : Environment} {base : State} {check : Check} {node : NodeId}

/-- A composed computation goes on from where its first part has come to. -/
theorem bind_of_run {s s' : State} {x : CheckM α} {f : α → CheckM β} {a : α}
    (h : x env s = some (a, s')) : (x >>= f) env s = f a env s' := by
  change (x env s).bind _ = _
  rw [h]
  rfl

/-- In every state that retains what is known in the first one, the computation has an answer, and
retains it too. -/
def Answers (env : Environment) (base : State) (x : CheckM α) : Prop :=
  ∀ s, Retains base s → ∃ a s', x env s = some (a, s') ∧ Retains base s'

/-! ### Composed computations -/

namespace Answers

theorem pure (a : α) : Answers env base (Pure.pure a : CheckM α) := fun s hs => ⟨a, s, rfl, hs⟩

theorem modify {f : State → State} (hf : ∀ s, Retains s (f s)) :
    Answers env base (modify f : CheckM PUnit) := fun s hs => ⟨⟨⟩, f s, rfl, hs.trans (hf s)⟩

theorem bind {x : CheckM α} {f : α → CheckM β} (hx : Answers env base x)
    (hf : ∀ a, Answers env base (f a)) : Answers env base (x >>= f) := fun s hs => by
  obtain ⟨a, s₁, ha, h₁⟩ := hx s hs
  obtain ⟨b, s₂, hb, h₂⟩ := hf a s₁ h₁
  exact ⟨b, s₂, run_bind.mpr ⟨a, s₁, ha, hb⟩, h₂⟩

theorem get_bind {f : State → CheckM β} (hf : ∀ s, Retains base s → Answers env base (f s)) :
    Answers env base (get >>= f) := fun s hs => hf s hs s hs

theorem getTree_bind {f : Tree → CheckM β} (hf : Answers env base (f env.tree)) :
    Answers env base (getTree >>= f) := hf

theorem run {s : State} {x : CheckM α} (h : Answers env s x) :
    ∃ a s', x env s = some (a, s') := by
  obtain ⟨a, s', hrun, -⟩ := h s (.refl s)
  exact ⟨a, s', hrun⟩

/-- A computation that always ends has answers if it forgets nothing. -/
theorem ofEnds {x : CheckM α} (h : Ends env x)
    (hretains : ∀ {s a s'}, x env s = some (a, s') → Retains s s') : Answers env base x :=
  fun s hs => by
    obtain ⟨a, s', hrun⟩ := h s
    exact ⟨a, s', hrun, hs.trans (hretains hrun)⟩

/-- Where there is no template context, nothing changes by leaving it. -/
theorem withContext {x : CheckM α} (hctx : base.context = none) (hx : Answers env base x) :
    Answers env base (withContext none x) := fun s hs => by
  have hnone : s.context = none := hs.context.trans hctx
  have hsame : ({ s with context := none } : State) = s := by rw [← hnone]
  obtain ⟨a, s', hrun, h'⟩ := hx s hs
  refine ⟨a, { s' with context := s.context }, run_withContext.mpr ⟨s', ?_, rfl⟩, ?_⟩
  · rw [hsame]
    exact hrun
  · have hback : ({ s' with context := s.context } : State) = s' := by
      rw [hnone, ← h'.context.trans hctx]
    rw [hback]
    exact h'

end Answers

/-! ### Steps that call for no checks -/

theorem modifyTypes_retains (f : TypeTable → TypeTable) (s : State) :
    Retains s (s.modifyTypes f) :=
  { Retains.refl s with }

theorem report_answers (message : Message) (arguments : List String) (place : Option NodeId) :
    Answers env base (report message arguments place) :=
  .ofEnds (report_ends _ _ _) fun hrun =>
    (Frame.ofQuiet (report_quiet hrun) : Frame none _ _).toRetains

theorem Ends.read_bind {f : Environment → CheckM β} (hf : Ends env (f env)) :
    Ends env (read >>= f) := hf

theorem runDecorator_ends (target : TypeId) (application : DecoratorApplication) :
    Ends env (runDecorator target application) := by
  refine .get_bind fun s => ?_
  split
  · exact .pure _
  · refine .read_bind ?_
    split
    · exact .bind (.modify _) fun _ => report_ends _ _ _
    · refine .bind (fun s => ⟨_, _, rfl⟩) fun outcome => .bind (.modify _) fun _ => ?_
      split
      · exact .pure _
      · refine .read_bind ?_
        split
        · exact fun s => report_ends _ _ _ s
        · exact .modify _

/-- All constructs have answers if the checks that they call for have. -/
def Answers.rules (hwf : env.tree.WellFormed) (base : State) : Rules env.tree where
  holds m _ := Answers env base m
  pure := .pure
  bind := .bind
  look _ _ hf := .get_bind fun s _ => hf s
  getTypes_bind hf s hs := hf s.types s hs
  getTree_bind hf := hf
  shouldFinish_bind _ hf s hs := hf _ s hs
  report _ _ _ := report_answers _ _ _
  resolveReference _ _ := .ofEnds (resolveReference_ends hwf _ _) fun hrun =>
    (Frame.ofQuiet (run_resolveReference hrun).2 : Frame none _ _).toRetains
  internalError _ := .bind (.modify fun s => { (Frame.raise _ : Frame none s _).toRetains with })
    fun _ => .pure _
  aside hg := .modify fun s => by
    rw [hg.only]
    exact { Retains.refl s with }
  amend _ _ _ _ := .modify (modifyTypes_retains _)
  addType _ _ _ _ := fun s hs =>
    ⟨_, _, run_addType.mpr ⟨rfl, rfl⟩, hs.trans (modifyTypes_retains _ s)⟩
  runDecorator target application := .ofEnds (runDecorator_ends target application) fun hrun =>
    (Frame.ofDecorated (runDecorator_decorated hrun) : Frame none _ _).toRetains
  declare _ _ _ _ _ _ := .modify fun s => (declare_frame _ _ _ _ _ : Frame none s _).toRetains

/-! ### References -/

theorem checkTemplateParameter_ends : Ends env (checkTemplateParameter node) := by
  refine .get_bind fun s => .getTree_bind ?_
  split
  · exact .pure _
  · refine .get_bind fun s => ?_
    split
    · exact .pure _
    · exact .bind (fun s => ⟨_, _, rfl⟩) fun _ => .bind (.modify _) fun _ => .pure _

/-- A reference to what has no template parameters calls for the check of the declaration that it
leads to. -/
theorem checkTypeReference_answers (hwf : env.tree.WellFormed) (hctx : base.context = none)
    (hplain : ∀ n, env.tree.templateParameters n = []) {target : NodeId} {arguments : List NodeId}
    (hkind : env.tree.kind? node = some (.typeReference target arguments))
    (hargs : ∀ c ∈ arguments, Answers env base (check c))
    (hdecn : ∀ id symbol declaration, base.referent? env.tree node = some id →
      base.bindings.symbol? id = some symbol → symbol.node? = some declaration →
      Answers env base (check declaration)) :
    Answers env base (checkTypeReference check node target arguments) := by
  intro s hs
  have hends : Answers env base (resolveReference target .type) := (Answers.rules hwf base).resolveReference _ _
  obtain ⟨found, s₁, hresolve, h₁⟩ := hends s hs
  obtain ⟨hfound, -⟩ := run_resolveReference hresolve
  have hrefnt : found = base.referent? env.tree node := by
    rw [hfound, referent?_of_typeReference hwf hkind]
    exact State.referent?_congr hs.bindings hs.mergedSymbols target
  suffices hrest : Answers env base _ by
    obtain ⟨t, s', hrun, h'⟩ := hrest s₁ h₁
    exact ⟨t, s', run_bind.mpr ⟨found, s₁, hresolve, hrun⟩, h'⟩
  split
  · exact .pure _
  next id =>
    refine .get_bind fun s hs => ?_
    split
    · exact .pure _
    next symbol hsym =>
      rw [hs.bindings] at hsym
      split
      · exact .bind (report_answers _ _ _) fun _ => .pure _
      · split
        · exact (Answers.rules hwf base).internalError _
        next declaration hnode =>
          have hcheck := hdecn id symbol declaration hrefnt.symm hsym hnode
          have hgiven : (Answers.rules hwf base).holds (arguments.mapM check)
              (arguments.mapM check) := (Answers.rules hwf base).mapM hargs
          refine .bind hgiven fun given => .getTree_bind ?_
          rw [if_neg (by simp [hplain])]
          have hdecl : Answers env base (checkDeclaredType check id declaration) := by
            refine .get_bind fun s _ => ?_
            split
            · exact .pure _
            · exact hcheck.withContext hctx
          have hreferred : Answers env base (checkReferent check id symbol.kind declaration) := by
            rw [checkReferent.eq_def]
            split
            · exact .ofEnds checkTemplateParameter_ends fun hrun =>
                (checkTemplateParameter_frame hrun : Frame none _ _).toRetains
            · refine .get_bind fun s _ => ?_
              split
              · exact .pure _
              · exact hcheck
            · exact hdecl
          refine .bind hreferred fun type => .bind ((Answers.rules hwf base).noteReference _) fun _ => ?_
          split
          · exact .bind (report_answers _ _ _) fun _ => .pure _
          · exact .pure _

end ApiSchema.Checking
