import ApiSchema.Proofs.Binding.Merging
import ApiSchema.Proofs.Checking.Rules

/-!
# Coupled runs

Two runs of the checker over one syntax tree may differ in the decorators, in what happens when one
fails, and in how deeply checks may be nested. What one state has beyond the other is then in its
log. A coupling is a relation between two logs that running a decorator, an internal error and a
report each preserve, together with a property of the type table that lasts whatever models come to
extend. The main statement is that every check preserves both: if the first run has an answer then
so has the second, it is the same answer, and apart from their logs the states agree.
-/

namespace ApiSchema.Checking

open State

variable {α β : Type} {s s' : State} {model : TypeId} {finish : Bool} {node : NodeId}
  {parts : ModelNode}

/-- The states agree apart from their logs, the logs are related, and the type table is sound. -/
structure Coupled (relation : Log → Log → Prop) (sound : TypeTable → Prop) (s s' : State) :
    Prop where
  core : s.core = s'.core
  log : relation s.log s'.log
  sound : sound s.types

/-- A change of the types from a sound table to a sound one. -/
theorem Coupled.modifyTypes {relation : Log → Log → Prop} {sound : TypeTable → Prop}
    (h : Coupled relation sound s s') (f : TypeTable → TypeTable) (hf : sound (f s.types)) :
    Coupled relation sound (s.modifyTypes f) (s'.modifyTypes f) where
  core := congrArg (State.modifyTypes · f) h.core
  log := h.log
  sound := hf

/-- What the first computation answers the second answers too, and it leaves a coupled state. -/
def Follows (left right : Environment) (relation : Log → Log → Prop) (sound : TypeTable → Prop)
    (m m' : CheckM α) : Prop :=
  ∀ ⦃s s' : State⦄ ⦃a : α⦄ ⦃t : State⦄, Coupled relation sound s s' → m left s = some (a, t) →
    ∃ t', m' right s' = some (a, t') ∧ Coupled relation sound t t'

/-- A relation between the logs of runs in two environments over one tree that every entry into a
log preserves, and a lasting property of type tables. -/
structure Coupling where
  left : Environment
  right : Environment
  tree : right.tree = left.tree
  relation : Log → Log → Prop
  sound : TypeTable → Prop
  lasting : TypeTable.Lasting sound
  report (message : Message) (arguments : List String) (node : Option NodeId) :
    Follows left right relation sound (report message arguments node)
      (report message arguments node)
  internalError (cause : InternalError) :
    Follows left right relation sound (internalError cause) (internalError cause)
  runDecorator (target : TypeId) (application : DecoratorApplication) :
    Follows left right relation sound (runDecorator target application)
      (runDecorator target application)

namespace Coupling

variable (c : Coupling)

/-- The second computation follows the first one. -/
abbrev Keeps (m m' : CheckM α) : Prop := Follows c.left c.right c.relation c.sound m m'

/-- The second check follows the first one on every node. -/
abbrev KeepsCheck (check check' : Check) : Prop := ∀ node, c.Keeps (check node) (check' node)

/-! ### Composed computations -/

theorem pure (a : α) : c.Keeps (pure a) (pure a) := by
  intro s s' b t h hrun
  obtain ⟨rfl, rfl⟩ := run_pure.mp hrun
  exact ⟨s', rfl, h⟩

variable {c} in
theorem bind {m m' : CheckM α} {f f' : α → CheckM β} (hm : c.Keeps m m')
    (hf : ∀ a, c.Keeps (f a) (f' a)) : c.Keeps (m >>= f) (m' >>= f') := by
  intro s s' b t h hrun
  obtain ⟨a, s₁, ha, hb⟩ := run_bind.mp hrun
  obtain ⟨s₁', ha', h₁⟩ := hm h ha
  obtain ⟨t', hb', ht⟩ := hf a h₁ hb
  exact ⟨t', run_bind.mpr ⟨a, s₁', ha', hb'⟩, ht⟩

/-- A computation that goes on with the state sees the same in both runs if it looks at the core
only. -/
theorem get_bind {f f' : State → CheckM β} (hcore : f = fun s => f s.core)
    (hcore' : f' = fun s => f' s.core) (hf : ∀ s, c.Keeps (f s) (f' s)) : c.Keeps (get >>= f) (get >>= f') := by
  intro s s' b t h hrun
  rw [Checking.get_bind, congrFun hcore s] at hrun
  rw [Checking.get_bind, congrFun hcore' s', ← h.core]
  exact hf _ h hrun

theorem getTypes_bind {f f' : TypeTable → CheckM β} (hf : ∀ types, c.Keeps (f types) (f' types)) :
    c.Keeps (getTypes >>= f) (getTypes >>= f') := by
  intro s s' b t h hrun
  have htypes : s'.core.types = s.core.types := congrArg types h.core.symm
  rw [Checking.getTypes_bind] at hrun ⊢
  exact htypes ▸ hf s.types h hrun

theorem getTree_bind {f f' : Tree → CheckM β} (hf : c.Keeps (f c.left.tree) (f' c.left.tree)) :
    c.Keeps (getTree >>= f) (getTree >>= f') := by
  intro s s' b t h hrun
  rw [Checking.getTree_bind] at hrun ⊢
  exact c.tree ▸ hf h hrun

theorem shouldFinish_bind (node : NodeId) {f f' : Bool → CheckM β}
    (hf : ∀ finish, c.Keeps (f finish) (f' finish)) :
    c.Keeps (shouldFinish node >>= f) (shouldFinish node >>= f') := by
  intro s s' b t h hrun
  have hfinish : s'.core.shouldFinish c.right.tree node = s.core.shouldFinish c.left.tree node := by
    rw [c.tree, h.core]
  rw [Checking.shouldFinish_bind] at hrun ⊢
  exact hfinish ▸ hf _ h hrun

/-- A change of the types that leaves alone what models extend. -/
theorem amendTypes {f : TypeTable → TypeTable}
    (hf : ∀ types id, (f types).heritage? id = types.heritage? id) :
    c.Keeps (modify fun s => s.modifyTypes f) (modify fun s => s.modifyTypes f) := by
  intro s s' u t h hrun
  obtain rfl := run_modify.mp hrun
  exact ⟨_, rfl, h.modifyTypes f (c.lasting.congr (hf s.types) h.sound)⟩

/-- A change that leaves the log and the types alone and works in the same way on the core. -/
theorem alter {g : State → State} (hlog : ∀ s, (g s).log = s.log)
    (hcore : ∀ s, (g s).core = g s.core) (htypes : ∀ s, (g s).types = s.types) :
    c.Keeps (modify g) (modify g) := by
  intro s s' u t h hrun
  obtain rfl := run_modify.mp hrun
  refine ⟨g s', rfl, ?_, ?_, ?_⟩
  · rw [hcore, hcore, h.core]
  · rw [hlog, hlog]
    exact h.log
  · rw [htypes]
    exact h.sound

/-- A new type that extends nothing. -/
theorem addType (node : Option NodeId) (shape : TypeShape)
    (hshape : ∀ m, shape = .model m → m.base = none) :
    c.Keeps (addType node shape) (addType node shape) := by
  intro s s' id t h hrun
  obtain ⟨rfl, rfl⟩ := run_addType.mp hrun
  have htypes : s'.core.types = s.core.types := congrArg types h.core.symm
  refine ⟨_, run_addType.mpr ⟨?_, rfl⟩, h.modifyTypes _ (c.lasting.push hshape h.sound)⟩
  exact congrArg Table.nextId htypes.symm

/-! ### Preparing -/

/-- What is done before the first check is coupled. -/
def preparation : PreparationRules c.left.tree where
  holds := c.Keeps
  pure := c.pure
  bind := bind
  look := c.get_bind
  getTree_bind := c.getTree_bind
  report _ _ _ := c.report _ _ _
  deep := Or.inl fun _ _ _ _ _ hrun => absurd hrun run_tooDeep
  mergeFiles files := c.alter
    (fun s => (congrArg log (mergeFiles_withLog s.log { s with initialized := true } files) :))
    (fun s => (mergeFiles_withLog _ { s with initialized := true } _).symm)
    fun _ => by rw [mergeFiles_enters]
  importNames _ _ := c.alter (fun _ => rfl) (fun _ => rfl) fun _ => rfl
  internalError := c.internalError
  addNamespace _ _ := c.addType _ _ nofun
  link _ _ := c.alter (fun _ => rfl) (fun _ => rfl) fun _ => rfl
  enlist parent _ _ := c.amendTypes fun _ => TypeTable.heritage?_modifyNamespace _ parent

/-- The declaration of a node is recorded in the same way in both runs. -/
theorem declare {node : NodeId} {known : State → TypeId} (hknown : ∀ s, known s.core = known s)
    (type : TypeId) (isTemplate : Bool) (key : List TypeId) :
    c.preparation.Keeps
      (modify fun s => s.declare (s.bindings.symbolOf? node) (known s) type isTemplate key) := by
  refine c.alter (fun s => ?_) (fun s => ?_) fun s => types_declare ..
  · rw [declare_eq]
    rfl
  · have hsym : s.core.bindings.symbolOf? node = s.bindings.symbolOf? node := rfl
    rw [hknown, hsym]
    cases s.bindings.symbolOf? node <;> rfl

/-- All constructs are coupled if the checks that they call for and the construction of models
are. -/
def rules : ModelRules c.left.tree where
  holds := c.Keeps
  pure := c.pure
  bind := bind
  look := c.get_bind
  getTypes_bind := c.getTypes_bind
  getTree_bind := c.getTree_bind
  shouldFinish_bind node := c.shouldFinish_bind node
  report _ _ _ := c.report _ _ _
  resolveReference :=
    c.preparation.resolveReference (fun _ _ => trivial) c.preparation.deep
  internalError := c.internalError
  aside h := c.alter (fun s => by rw [h.only]; rfl) h.core fun s => by rw [h.only]
  amend _ _ hf _ := c.amendTypes hf
  addType place shape _ := c.addType place shape
  runDecorator := c.runDecorator
  declare type key _ _ _ hknown := c.declare hknown type _ key
  detour h := c.alter (fun s => by rw [h.only]; rfl) h.core fun s => by rw [h.only]
  instantiated _ _ _ _ := c.alter (fun _ => rfl) (fun _ => rfl) fun _ => rfl
  pend _ _ _ := c.alter (fun _ => rfl) (fun _ => rfl) fun _ => rfl
  unpend _ _ := c.alter (fun _ => rfl) (fun _ => rfl) fun _ => rfl
  addModel place hbase := c.addType place _ fun _ heq => TypeShape.model.inj heq ▸ hbase
  declareModel type key _ _ := c.declare (fun _ => rfl) type _ key
  pendModel _ _ _ := c.alter (fun _ => rfl) (fun _ => rfl) fun _ => rfl
  unpendModel _ _ := c.alter (fun _ => rfl) (fun _ => rfl) fun _ => rfl

/-! ### Models -/

section

variable {c}

/-- A model gets the base that was admitted for it, if one was. -/
theorem admitBase (complaint : Message) (model : TypeId) (node : NodeId) (source : TypeId) :
    c.Keeps (Checking.admitHeritage complaint model node source >>= setBase model)
      (Checking.admitHeritage complaint model node source >>= setBase model) := by
  intro s s' u t h hrun
  obtain ⟨base, s₁, hadmit, hset⟩ := run_bind.mp hrun
  obtain ⟨s₁', hadmit', h₁⟩ := c.rules.admitHeritage c.report complaint model node source h hadmit
  obtain rfl := run_modify.mp hset
  refine ⟨_, run_bind.mpr ⟨base, s₁', hadmit', rfl⟩, h₁.modifyTypes _ ?_⟩
  rcases admitHeritage_cases hadmit with ⟨rfl, rfl, hnot, m, hshape⟩ | ⟨rfl, -, -⟩
  · exact c.lasting.rebase h.sound (TypeTable.model?_eq_some_iff.mpr hshape) hnot (.refl _) h.sound
      (.inl rfl)
  · exact c.lasting.clear model h₁.sound

/-- What is copied into a model extends what it extended. -/
theorem keepsHeritage_of_copyInto {env : Environment} {inherited : List String}
    {properties : List TypeId} {u : Unit}
    (hrun : Checking.copyInto model inherited finish node properties env s = some (u, s')) :
    s.types.KeepsHeritage s'.types := by
  obtain ⟨copies, s₁, hcopied, hrest⟩ := run_bind.mp hrun
  have hcopies : s.types.KeepsHeritage s₁.types := by
    refine mapM_preserves (P := fun s' => s.types.KeepsHeritage s'.types) (.refl _)
      (fun hbefore hcopy => hbefore.trans ?_) hcopied
    rcases copyProperty_cases hcopy with ⟨-, -, rfl⟩ | ⟨p, -, -, hfin⟩
    · exact .refl _
    · rw [hfin.types]
      exact fun _ hid =>
        ⟨(TypeTable.Grows.push _ _).has hid, TypeTable.heritage?_push_of_has _ hid⟩
  refine forM_preserves (P := fun s' => s.types.KeepsHeritage s'.types) hcopies
    (fun hbefore hdefine => hbefore.trans ?_) hrest
  rcases defineProperty_cases hdefine with ⟨rfl, -⟩ | ⟨hquiet, -⟩ | ⟨p, -, -, -, rfl⟩
  · exact .refl _
  · rw [hquiet.types]
    exact .refl _
  · exact .modifyModel (by exact fun _ => rfl) model

/-- A model gets the base of a model that does not lead back to it. -/
theorem copyModel {source : TypeId} {withBase : Bool} {t : State}
    {decorators : List DecoratorApplication} (h : Coupled c.relation c.sound s s')
    (hnot : model ∉ s.types.baseChain source)
    (hrun : copyModel model source node finish withBase c.left s = some (decorators, t)) :
    ∃ t', Checking.copyModel model source node finish withBase c.right s' = some (decorators, t') ∧
      Coupled c.relation c.sound t t' := by
  have htypes : s'.core.types = s.core.types := congrArg types h.core.symm
  rw [Checking.copyModel, Checking.getTypes_bind] at hrun ⊢
  rw [show s'.types = s.types from htypes]
  cases hsource : s.types.model? source with
  | none =>
    simp only [hsource] at hrun ⊢
    exact c.pure _ h hrun
  | some copied =>
    simp only [hsource] at hrun ⊢
    obtain ⟨_, s₁, hinto, hrun⟩ := run_bind.mp hrun
    obtain ⟨s₁', hinto', h₁⟩ := c.rules.copyInto model [] finish node copied.properties.values h hinto
    cases withBase with
    | true =>
      obtain ⟨_, s₂, hset, hrun⟩ := run_bind.mp hrun
      obtain rfl := run_modify.mp hset
      obtain ⟨rfl, rfl⟩ := run_pure.mp hrun
      refine ⟨_, run_bind.mpr ⟨⟨⟩, s₁', hinto', rfl⟩, h₁.modifyTypes _ ?_⟩
      exact c.lasting.rebase h.sound hsource hnot (keepsHeritage_of_copyInto hinto) h₁.sound
        (.inr rfl)
    | false =>
      obtain ⟨rfl, rfl⟩ := run_pure.mp hrun
      exact ⟨_, run_bind.mpr ⟨⟨⟩, s₁', hinto', rfl⟩, h₁⟩

theorem copyHeritage (model source : TypeId) (node : NodeId) (finish withBase : Bool) :
    c.Keeps (copyHeritage model source node finish withBase)
      (copyHeritage model source node finish withBase) := by
  intro s s' decorators t h hrun
  obtain ⟨admitted, s₁, hadmit, hrest⟩ := run_bind.mp hrun
  obtain ⟨s₁', hadmit', h₁⟩ := c.rules.admitHeritage c.report .isNonModel model node source h hadmit
  rcases admitHeritage_cases hadmit with ⟨rfl, rfl, hnot, -⟩ | ⟨rfl, -, -⟩
  · obtain ⟨t', hcopy, ht⟩ := copyModel h₁ hnot hrest
    exact ⟨t', run_bind.mpr ⟨_, s₁', hadmit', hcopy⟩, ht⟩
  · obtain ⟨rfl, rfl⟩ := run_pure.mp hrest
    exact ⟨s₁', run_bind.mpr ⟨_, s₁', hadmit', rfl⟩, h₁⟩

variable {check check' : Check} (hcheck : c.KeepsCheck check check')

include hcheck

theorem buildModel (hkind : c.left.tree.kind? node = some (.modelStatement parts)) (type : TypeId) :
    c.Keeps (buildModel check node parts type) (buildModel check' node parts type) := by
  refine bind ?_ fun _ => c.rules.fillModel type hkind (fun n _ => hcheck n) fun finish withBase => ?_
  · cases parts.base with
    | none => exact c.pure _
    | some place => exact bind (hcheck place) fun _ => admitBase ..
  · cases parts.copied with
    | none => exact c.pure _
    | some place =>
      exact bind (hcheck place) fun _ => c.get_bind rfl rfl fun _ =>
        bind (copyHeritage ..) fun _ => bind (c.rules.noteReading _) fun _ => c.pure _

/-! ### Nodes -/

/-- Every check follows the same check in a coupled run if the checks that it calls for do. -/
theorem checkStep (node : NodeId) : c.Keeps (checkStep check node) (checkStep check' node) :=
  c.rules.checkStep hcheck fun _ hkind => buildModel hcheck hkind

end

/-- The runs in one environment, with a lasting property of the type table. -/
def within (env : Environment) {sound : TypeTable → Prop} (hlasting : TypeTable.Lasting sound) :
    Coupling where
  left := env
  right := env
  tree := rfl
  relation := Eq
  sound
  lasting := hlasting
  report _ _ _ _ _ _ t h hrun :=
    ⟨t, eq_of_core_of_log h.core h.log ▸ hrun, rfl, rfl, (report_quiet hrun).types ▸ h.sound⟩
  internalError _ _ _ _ t h hrun :=
    ⟨t, eq_of_core_of_log h.core h.log ▸ hrun, rfl, rfl,
      (run_internalError.mp hrun).2 ▸ h.sound⟩
  runDecorator _ _ _ _ _ t h hrun :=
    ⟨t, eq_of_core_of_log h.core h.log ▸ hrun, rfl, rfl,
      (runDecorator_decorated hrun).types ▸ h.sound⟩

variable {c} in
/-- The second run follows the first one if its checks may be nested at least as deeply. -/
theorem checkNode {depth depth' : Nat} (h : depth ≤ depth') :
    c.KeepsCheck (checkNode depth) (checkNode depth') := by
  induction depth generalizing depth' with
  | zero => exact fun _ _ _ _ _ _ hrun => absurd hrun run_checkNode_zero
  | succ depth ih =>
    obtain ⟨depth', rfl⟩ := Nat.exists_eq_add_one_of_ne_zero (n := depth') (by omega)
    exact checkStep (ih (by omega))

end Coupling

end ApiSchema.Checking
