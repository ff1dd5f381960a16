import ApiSchema.Proofs.Checking.Referents
import ApiSchema.Proofs.Checking.Reports
import ApiSchema.Proofs.Checking.Rules

/-!
# What only model statements do

Most of what a check does makes no difference to what models extend, nor to the complaints about
models that extend themselves. A relation between states is indifferent if it holds over all changes
of that sort. Every check but that of a model statement keeps to an indifferent relation if the
checks that it calls for do.
-/

namespace ApiSchema.Checking

variable {α β : Type} {env : Environment} {R : State → State → Prop}

/-- Every run of a computation is related. -/
def Obeys (env : Environment) (R : State → State → Prop) (x : CheckM α) : Prop :=
  ∀ ⦃s : State⦄ ⦃a : α⦄ ⦃s' : State⦄, x env s = some (a, s') → R s s'

theorem Obeys.modify {f : State → State} (hf : ∀ s, R s (f s)) :
    Obeys env R (modify f : CheckM PUnit) := fun s _ s' hrun => by
  rw [run_modify.mp hrun]
  exact hf s

/-- A relation that holds over every change of the state that leaves alone what models extend, the
models that are known and under construction, and the complaints about what models extend. -/
structure Indifferent (env : Environment) (R : State → State → Prop) : Prop where
  refl (s : State) : R s s
  trans {s s₁ s₂ : State} : R s s₁ → R s₁ s₂ → R s s₂
  /-- Complaints of another kind are indifferent. -/
  told {s : State} {diagnostics : Diagnostics} {more : List Diagnostic} :
    diagnostics.toList = s.diagnostics.toList ++ more →
    (∀ d ∈ more, d.message ≠ .recursiveBase) → R s { s with diagnostics }
  added {s : State} {row : TypeRecord} : ¬ Stated env.tree row → R s (s.addRow row)
  amended {s : State} {id : TypeId} {f : TypeShape → TypeShape} :
    (∀ other, (s.types.modifyShape id f).heritage? other = s.types.heritage? other) →
    R s (s.modifyTypes fun types => types.modifyShape id f)
  declared {s : State} {node : NodeId} {kind : NodeKind} {known type : TypeId} {isTemplate : Bool}
    {key : List TypeId} : env.tree.kind? node = some kind → kind.symbolKind? ≠ some .model →
    (isTemplate = true → kind.templateParameters ≠ []) →
    R s (s.declare (s.bindings.symbolOf? node) known type isTemplate key)
  instantiated {declaration : NodeId} (s : State) (symbol : SymbolId) (arguments : List TypeId)
    (t : TypeId) : env.tree.templateParameters declaration ≠ [] →
    R s (s.addInstance symbol arguments t)
  pended {s : State} {pending : OrderedMap (NodeId × List TypeId) TypeId} :
    (∀ n parts key, env.tree.kind? n = some (.modelStatement parts) →
      pending.find? (n, key) = s.pending.find? (n, key)) → R s { s with pending }
  aside {s s' : State} : s'.bindings = s.bindings → s'.mergedSymbols = s.mergedSymbols →
    s'.types = s.types → s'.links = s.links → s'.pending = s.pending →
    s'.diagnostics = s.diagnostics → R s s'

namespace Indifferent

variable (h : Indifferent env R)

include h

theorem pure (a : α) : Obeys env R (Pure.pure a : CheckM α) := fun s _ s' hrun => by
  rw [(run_pure.mp hrun).2]
  exact h.refl s

theorem bind {x : CheckM α} {f : α → CheckM β} (hx : Obeys env R x)
    (hf : ∀ a, Obeys env R (f a)) : Obeys env R (x >>= f) := fun s _ s' hrun => by
  obtain ⟨a, s₁, hfirst, hrest⟩ := run_bind.mp hrun
  exact h.trans (hx hfirst) (hf a hrest)

theorem report {message : Message} (hmessage : message ≠ .recursiveBase) (arguments : List String)
    (place : Option NodeId) : Obeys env R (report message arguments place) := fun s _ s' hrun => by
  simp only [Checking.report, Checking.getTree_bind, run_modify] at hrun
  subst hrun
  refine h.told (rfl : _ = s.diagnostics.toList ++ [_]) fun d hd => ?_
  obtain rfl := List.mem_singleton.mp hd
  rw [diagnosticAt]
  split <;> exact hmessage

theorem resolveReference (target : NodeId) (kind : ReferenceKind) :
    Obeys env R (resolveReference target kind) := fun s _ s' hrun => by
  obtain ⟨more, hmore, hmessages⟩ := (Tells.rules env _).resolveReference (fun _ => id)
    (.inl (tooDeep_tells (·.code < 1009))) _ _ _ _ _ hrun
  rw [(run_resolveReference hrun).2.eq]
  refine h.told hmore fun d hd heq => ?_
  simpa [heq, Message.code] using hmessages d hd

theorem runDecorator (target : TypeId) (application : DecoratorApplication) :
    Obeys env R (runDecorator target application) := by
  have hnote : ∀ outcome, Obeys env R (noteAttempt target application outcome) := fun _ =>
    .modify fun _ => h.aside rfl rfl rfl rfl rfl rfl
  have hget : ∀ {f : State → CheckM PUnit}, (∀ s, Obeys env R (f s)) → Obeys env R (get >>= f) :=
    fun hf s _ _ hrun => hf s hrun
  have hread : ∀ {f : Environment → CheckM PUnit}, Obeys env R (f env) → Obeys env R (read >>= f) :=
    fun hf => hf
  refine hget fun s => ?_
  split
  · exact h.pure _
  · refine hread ?_
    split
    · exact h.bind (hnote _) fun _ => h.report (by simp) _ _
    next decorator _ =>
      have happly : Obeys env R (applyDecorator decorator target application) :=
        fun s _ s' hrun => by
          simp only [applyDecorator, getTypes_bind, getTree_bind, get_bind, modify_bind] at hrun
          rw [(run_pure.mp hrun).2]
          exact h.aside rfl rfl rfl rfl rfl rfl
      refine h.bind happly fun outcome => h.bind (hnote _) fun _ => ?_
      split
      · exact h.pure _
      · refine hread ?_
        split
        · exact fun s _ _ hrun => h.report (by simp) _ _ hrun
        · exact .modify fun _ => h.aside rfl rfl rfl rfl rfl rfl

/-- All constructs but model statements keep to the relation if the checks that they call for do. -/
def rules : DeclarationRules env.tree where
  holds m _ := Obeys env R m
  pure := h.pure
  bind := h.bind
  look _ _ hf s _ _ hrun := hf s hrun
  getTypes_bind hf s _ _ hrun := hf s.types hrun
  getTree_bind hf := hf
  shouldFinish_bind _ hf _ _ _ hrun := hf _ hrun
  report arguments place hmessage := h.report hmessage arguments place
  resolveReference := h.resolveReference
  internalError _ := h.bind (.modify fun _ => h.aside rfl rfl rfl rfl rfl rfl) fun _ => h.pure _
  aside hg := .modify fun s => by
    rw [hg.only]
    exact h.aside rfl rfl rfl rfl rfl rfl
  amend _ _ hf _ := .modify fun s => h.amended (hf s.types)
  addType _ _ hrow _ := fun s _ s' hrun => by
    rw [(run_addType.mp hrun).2]
    exact h.added hrow
  runDecorator := h.runDecorator
  declare _ _ hkind hnot htempl _ := .modify fun _ => h.declared hkind hnot htempl
  detour hg := .modify fun s => by
    rw [hg.only]
    exact h.aside rfl rfl rfl rfl rfl rfl
  instantiated _ _ _ hparams := .modify fun s => h.instantiated s _ _ _ hparams
  pend key type hkind := .modify fun s => h.pended fun n parts key' hmodel => by
    rw [OrderedMap.find?_insert, if_neg fun heq => ?_]
    obtain ⟨rfl, -⟩ := Prod.mk.inj heq
    simp [hkind] at hmodel
  unpend key hkind := .modify fun s => h.pended fun n parts key' hmodel => by
    rw [OrderedMap.find?_erase, if_neg fun heq => ?_]
    obtain ⟨rfl, -⟩ := Prod.mk.inj heq
    simp [hkind] at hmodel

end Indifferent

end ApiSchema.Checking
