import ApiSchema.Proofs.Checking.Log
import ApiSchema.Proofs.Syntax.WellFormed

/-!
# Rules for resolving and preparing

What is to be shown of a computation is often shown by showing it of its parts. `BasicRules` lists
what has to be known of a relation between computations for that; a property of a single computation
is a relation that does not look at the second one. References are resolved with a few of these
rules, and `PreparationRules` adds what is needed for all that is done before the first check.
-/

namespace ApiSchema.Checking

variable {α β : Type} {tree : Tree} {allowed : Message → Prop}

/-- A relation between computations that is passed on from the parts to the whole, if only some
messages are reported. What a computation does with the state that it looks at must not depend on
the log. -/
structure BasicRules (tree : Tree) (allowed : Message → Prop) where
  holds {α : Type} : CheckM α → CheckM α → Prop
  pure {α : Type} (a : α) : holds (Pure.pure a) (Pure.pure a)
  bind {α β : Type} {m m' : CheckM α} {f f' : α → CheckM β} : holds m m' →
    (∀ a, holds (f a) (f' a)) → holds (m >>= f) (m' >>= f')
  look {β : Type} {f f' : State → CheckM β} : (f = fun s => f s.core) →
    (f' = fun s => f' s.core) → (∀ s, holds (f s) (f' s)) → holds (get >>= f) (get >>= f')
  getTree_bind {β : Type} {f f' : Tree → CheckM β} : holds (f tree) (f' tree) →
    holds (getTree >>= f) (getTree >>= f')
  report {message : Message} (arguments : List String) (place : Option NodeId) : allowed message →
    holds (report message arguments place) (report message arguments place)

/-- The relation holds between a computation and itself. -/
abbrev BasicRules.Keeps (r : BasicRules tree allowed) (m : CheckM α) : Prop := r.holds m m

namespace BasicRules

variable (r : BasicRules tree allowed)

/-! ### Composed computations -/

/-- A complaint, and the answer that is given nevertheless. -/
theorem reported {message : Message} (h : allowed message) {arguments : List String}
    {place : Option NodeId} {a : α} :
    r.Keeps (Checking.report message arguments place >>= fun _ => Pure.pure a) :=
  r.bind (r.report _ _ h) fun _ => r.pure _

/-- An answer that is not looked at. -/
theorem discard {m m' : CheckM α} (hm : r.holds m m') :
    r.holds (Functor.discard m) (Functor.discard m') :=
  r.bind hm fun _ => r.pure _

/-- A computation for each of a list. -/
theorem forM {f f' : α → CheckM PUnit} {xs : List α} (hf : ∀ x ∈ xs, r.holds (f x) (f' x)) :
    r.holds (xs.forM f) (xs.forM f') := by
  induction xs with
  | nil => exact r.pure _
  | cons x rest ih =>
    exact r.bind (hf x (.head _)) fun _ => ih fun y hy => hf y (.tail _ hy)

/-- The answers for each of a list. -/
theorem mapM {f f' : α → CheckM β} {xs : List α} (hf : ∀ x ∈ xs, r.holds (f x) (f' x)) :
    r.holds (xs.mapM f) (xs.mapM f') := by
  induction xs with
  | nil => exact r.pure _
  | cons x rest ih =>
    rw [List.mapM_cons, List.mapM_cons]
    exact r.bind (hf x (.head _)) fun _ =>
      r.bind (ih fun y hy => hf y (.tail _ hy)) fun _ => r.pure _

/-- A list is gone through with an answer that is handed on. -/
theorem foldlM {f f' : β → α → CheckM β} {xs : List α}
    (hf : ∀ x ∈ xs, ∀ b, r.holds (f b x) (f' b x)) (b : β) :
    r.holds (xs.foldlM f b) (xs.foldlM f' b) := by
  induction xs generalizing b with
  | nil => exact r.pure _
  | cons x rest ih =>
    rw [List.foldlM_cons, List.foldlM_cons]
    exact r.bind (hf x (.head _) b) fun c =>
      ih (fun y hy => hf y (.tail _ hy)) c

/-! ### Resolving references -/

/-- What is not found is reported. -/
theorem foundOrReport (found : Option SymbolId) {message : Message} (h : allowed message)
    (name : String) (node : NodeId) : r.Keeps (foundOrReport found message name node) := by
  rw [Checking.foundOrReport]
  split
  · exact r.reported h
  · exact r.pure _

section

variable (hallowed : ∀ message : Message, message.code < 1009 → allowed message)

include hallowed

/-- A member is looked up in a namespace. -/
theorem resolveMember (base : SymbolId) (member : String) (kind : ReferenceKind) (node : NodeId) :
    r.Keeps (resolveMember base member kind node) := by
  refine r.look rfl rfl fun s => ?_
  split
  · exact r.pure _
  · split
    · exact r.reported (hallowed _ (by decide))
    · split
      · exact r.getTree_bind (r.reported (hallowed _ (by decide)))
      · exact r.look rfl rfl fun _ => r.foundOrReport _ (hallowed _ (by decide)) _ _

/-- The segments of a reference come before it, so that a reference in a well-formed tree is not
nested too deeply. -/
theorem resolveWithin {depth : Nat} {node : NodeId} (kind : ReferenceKind)
    (hdeep : r.Keeps (tooDeep : CheckM (Option SymbolId)) ∨ tree.WellFormed ∧ node.index < depth) :
    r.Keeps (resolveWithin depth node kind) := by
  induction depth generalizing node kind with
  | zero => exact hdeep.elim id fun h => absurd h.2 (Nat.not_lt_zero _)
  | succ depth ih =>
    have hinner : ∀ inner ∈ tree.children node,
        r.Keeps (tooDeep : CheckM (Option SymbolId)) ∨ tree.WellFormed ∧ inner.index < depth := by
      intro inner hmem
      refine hdeep.imp_right fun ⟨hwf, hlt⟩ => ⟨hwf, ?_⟩
      have hbefore := hwf.lt_of_parent (hwf.parent_of_mem hmem)
      omega
    refine r.getTree_bind ?_
    split
    · exact r.look rfl rfl fun _ => r.getTree_bind (r.foundOrReport _ (hallowed _ (by decide)) _ _)
    next base member hkind =>
      refine r.bind (ih .type (hinner _ (by simp [Tree.children, hkind])))
        fun found => ?_
      split
      · exact r.pure _
      · exact r.resolveMember hallowed _ _ _ _
    next target arguments hkind =>
      exact ih kind (hinner _ (by simp [Tree.children, hkind]))
    · exact r.pure _

/-- A reference is resolved from the outermost segment. -/
theorem resolveReference
    (hdeep : r.Keeps (tooDeep : CheckM (Option SymbolId)) ∨ tree.WellFormed) (node : NodeId)
    (kind : ReferenceKind) : r.Keeps (resolveReference node kind) := by
  refine r.getTree_bind ?_
  cases hnode : tree.kind? node with
  | none =>
    refine r.getTree_bind ?_
    rw [hnode]
    exact r.pure _
  | some nodeKind =>
    refine r.resolveWithin hallowed kind (hdeep.imp_right fun hwf => ⟨hwf, ?_⟩)
    exact Nat.lt_succ_of_lt (Tree.index_lt_size_of_kind hnode)

/-- A `using` statement imports names or is reported. -/
theorem checkUsing (hdeep : r.Keeps (tooDeep : CheckM (Option SymbolId)) ∨ tree.WellFormed)
    (himport : ∀ owner exports, r.Keeps (importNames owner exports)) (statement : NodeId) :
    r.Keeps (checkUsing statement) := by
  refine r.getTree_bind ?_
  split
  · refine r.bind (r.resolveReference hallowed hdeep _ _) fun found => ?_
    split
    · exact r.pure _
    · refine r.look rfl rfl fun s => ?_
      split
      · exact r.pure _
      · split
        · exact r.report _ _ (hallowed _ (by decide))
        · split
          · exact r.report _ _ (hallowed _ (by decide))
          · refine r.look rfl rfl fun s => r.getTree_bind ?_
            split
            · exact himport _ _
            · exact r.pure _
  · exact r.pure _

end

end BasicRules

/-! ### Preparing -/

/-- A relation that is also passed on by all that is done before the first check. -/
structure PreparationRules (tree : Tree) extends BasicRules tree fun _ => True where
  deep : toBasicRules.Keeps (tooDeep : CheckM (Option SymbolId)) ∨ tree.WellFormed
  mergeFiles (files : List NodeId) : toBasicRules.Keeps
    (modify fun s => State.mergeFiles { s with initialized := true } files)
  importNames (owner : NodeId) (exports : SymbolTable) :
    toBasicRules.Keeps (importNames owner exports)
  internalError (cause : InternalError) : toBasicRules.Keeps (internalError cause)
  addNamespace (node : NodeId) (contents : NamespaceType) :
    toBasicRules.Keeps (addType (some node) (.namespaceType contents))
  link (symbol : SymbolId) (type : TypeId) : toBasicRules.Keeps (modify fun s =>
    s.modifyLinks symbol fun links => { links with namespaceType := some type })
  enlist (parent : TypeId) (name : String) (type : TypeId) : toBasicRules.Keeps
    (addToNamespace (some parent) fun contents =>
      { contents with namespaces := contents.namespaces.insertIfNew name type })

namespace PreparationRules

variable (r : PreparationRules tree)

/-- `using` statements come before the checks. -/
theorem checkUsing (statement : NodeId) : r.Keeps (checkUsing statement) :=
  r.toBasicRules.checkUsing (fun _ _ => trivial) r.deep r.importNames statement

/-- Names with several claimants are reported. -/
theorem reportContestedNames : r.Keeps reportContestedNames := by
  refine r.look rfl rfl fun s => r.forM fun id _ => r.look rfl rfl fun s => ?_
  split
  · exact r.pure _
  · exact r.report _ _ trivial

/-- A namespace gets its type. -/
theorem createNamespaceType (node : NodeId) (name : String) :
    r.Keeps (createNamespaceType node name) := by
  refine r.look rfl rfl fun s => ?_
  split
  · exact r.pure _
  · refine r.look rfl rfl fun s => ?_
    split
    · exact r.pure _
    · refine r.look rfl rfl fun s => ?_
      split
      · exact r.discard (r.internalError _)
      · exact r.bind (r.addNamespace _ _) fun _ => r.look rfl rfl fun _ =>
          r.bind (r.link _ _) fun _ => r.enlist _ _ _

/-- All that is done before the first check. -/
theorem prepare : r.Keeps prepare := by
  refine r.look rfl rfl fun s => ?_
  split
  · exact r.pure _
  · exact r.getTree_bind (r.bind (r.mergeFiles _) fun _ => r.look rfl rfl fun s =>
      r.bind (r.forM fun _ _ => r.checkUsing _) fun _ => r.bind r.reportContestedNames fun _ =>
        r.getTree_bind (r.forM fun _ _ => r.createNamespaceType _ _))

end PreparationRules

end ApiSchema.Checking
