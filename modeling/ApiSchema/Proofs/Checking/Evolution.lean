import ApiSchema.Proofs.Checking.Session

/-!
# Relations that all checks keep to

Whatever is to be shown of all checks can be put as a relation between the state before a check and
the state after it. `Evolution` lists what has to be shown of such a relation: that it holds over
each single change of the state, and over the construction of a model, an interface, an enum, an
operation or a namespace if it holds over the checks that the construction calls for. References,
template keys and the work that leads from one of these changes to the next are dealt with here once
and for all.
-/

namespace ApiSchema.Checking

open Tree Option State

variable {env : Environment} {check : Check} {R : State → State → Prop} {node declaration : NodeId}
  {s s' s₁ : State} {t : TypeId} {parts : NamespaceNode} {key known arguments given : List TypeId}
  {template : Option NodeId} {floor : Nat} {P : List TypeId → Prop} {symbol id : SymbolId}
  {kind : NodeKind}

/-- A model, an interface or an alias is under construction. -/
def State.InProgress (s : State) (declaration : NodeId) : Prop :=
  (∃ key t, s.pending.find? (declaration, key) = some t) ∨ ∃ key, (declaration, key) ∈ s.openAliases

/-- It is remembered that a node has been checked: the type of a declaration is known, and a
namespace counts as visited or, if it has no type, has made the session fail. -/
structure State.Remembers (s : State) (tree : Tree) (node : NodeId) : Prop where
  declared {kind : NodeKind} {symbol : SymbolId} : tree.isRemembered node = true →
    tree.kind? node = some kind → kind.symbolKind? ≠ some .namespaceKind →
    s.bindings.symbolOf? node = some symbol → ∃ t, s.declaredType? symbol = some t
  visited {parts : NamespaceNode} {t : TypeId} :
    tree.kind? node = some (.namespaceStatement parts) →
    (s.bindings.symbolOf? node).bind s.namespaceTypeOf? = some t → node ∈ s.checkedNamespaces
  failed {parts : NamespaceNode} : tree.kind? node = some (.namespaceStatement parts) →
    (s.bindings.symbolOf? node).bind s.namespaceTypeOf? = none → s.failure.isSome = true

/-- A node that is met again has been checked or is under construction. -/
def State.Met (s : State) (tree : Tree) (node : NodeId) : Prop :=
  s.Remembers tree node ∨ s.InProgress node

/-- A context that is entered is empty, or it is that of a template that has been met. -/
def Enters (env : Environment) (s : State) (context : Option Instantiation) : Prop :=
  ∀ i, context = some i → ∃ id symbol, s.bindings.symbol? id = some symbol ∧
    symbol.node? = some i.declaration ∧ symbol.kind.isTemplatable = true ∧
    ((∃ t, s.declaredType? id = some t) ∨ s.Met env.tree i.declaration)

/-- What the checker takes for an error of its own: a symbol without a declaration, or a namespace
statement whose namespace has no type. -/
inductive Warranted (env : Environment) (s : State) : InternalError → Prop
  | undeclared {id : SymbolId} {symbol : Symbol} : s.bindings.symbol? id = some symbol →
    symbol.isDecorator = false → symbol.node? = none → Warranted env s (.undeclaredSymbol id.label)
  | untyped {node : NodeId} {parts : NamespaceNode} :
    env.tree.kind? node = some (.namespaceStatement parts) →
    (s.bindings.symbolOf? node).bind s.namespaceTypeOf? = none →
    Warranted env s (.untypedNamespace parts.name)

/-- A relation that holds over every single change of the state, if members are added to no enum but
the one under construction. -/
structure Stepwise (env : Environment) (own : Option TypeId) (R : State → State → Prop) : Prop where
  refl (s : State) : R s s
  trans {s s₁ s₂ : State} : R s s₁ → R s₁ s₂ → R s s₂
  quiet {s s' : State} : Quiet s s' → R s s'
  raised {s : State} {cause : InternalError} : Warranted env s cause → R s (s.raise cause)
  added {s s' : State} {row : TypeRecord} {finish : Bool} : row.shape.isPlain = true →
    row.Incidental env.tree →
    (∀ {m : EnumMemberType}, row.shape = .enumMember m → own = some m.enumType) →
    Finished finish s.types.nextId (s.addRow row) s' → R s s'
  assembled {s : State} {known : List TypeId} {node : NodeId} {operands : List NodeId}
    {properties : OrderedMap String TypeId} :
    env.tree.kind? node = some (.intersectionExpression operands) →
    Named s.types known properties →
    R s (s.addRow ⟨some node, .model { ModelType.anonymous with properties }⟩)
  literal (s : State) (node : NodeId) (literal : Literal) (literalTypes : OrderedMap Literal TypeId) :
    R s { s.addRow ⟨some node, literal.shape⟩ with literalTypes }
  parameter {s : State} {p : NodeId} : s.parameterTypes.find? p = none →
    R s { s.addRow ⟨some p, .templateParameter⟩ with
      parameterTypes := s.parameterTypes.insert p s.types.nextId }
  intrinsic {s : State} {node : NodeId} {name : String} :
    env.tree.kind? node = some (.intrinsicStatement name) → s.declaredTypeOfNode? node = none →
    R s (s.entered node (.intrinsic name))
  reference (s : State) (reference : Reference) :
    R s { s with references := reference :: s.references }
  instantiated (s : State) (symbol : SymbolId) (arguments : List TypeId) (t : TypeId) :
    R s (s.addInstance symbol arguments t)
  within {s s₁ : State} {context : Option Instantiation} : Enters env s context →
    Frame none { s with context } s₁ → R { s with context } s₁ →
    R s { s₁ with context := s.context }

/-- The check of a node outside its instances meets it. -/
def Meets (env : Environment) (check : Check) : Prop :=
  ∀ {node : NodeId} {s s' : State} {t : TypeId}, s.isInstantiating node = false →
    check node env s = some (t, s') → s'.Met env.tree node

/-- Every run of a check of nodes is related, and meets what it is about. -/
structure Relates (env : Environment) (R : State → State → Prop) (check : Check) : Prop where
  nested : ∃ depth, check = checkNode depth
  framed : Framed env check
  meets : Meets env check
  related {node : NodeId} {s s' : State} {t : TypeId} : check node env s = some (t, s') → R s s'

namespace State.Remembers

variable {tree : Tree}

theorem of_isRemembered (h : tree.isRemembered node = false) : s.Remembers tree node := by
  refine ⟨fun hnode => by simp [h] at hnode, fun hkind => ?_, fun hkind => ?_⟩
  · simp [isRemembered, hkind] at h
  · simp [isRemembered, hkind] at h

/-- What is no namespace is remembered by its type. -/
theorem of_declared (hkind : tree.kind? node = some kind)
    (hnot : kind.symbolKind? ≠ some .namespaceKind)
    (h : ∀ symbol, s.bindings.symbolOf? node = some symbol → ∃ t, s.declaredType? symbol = some t) :
    s.Remembers tree node := by
  refine ⟨fun _ _ _ hsym => h _ hsym, fun hother => ?_, fun hother => ?_⟩
  · obtain rfl := mem_unique hkind hother
    simp at hnot
  · obtain rfl := mem_unique hkind hother
    simp at hnot

theorem of_visited (hkind : tree.kind? node = some (.namespaceStatement parts))
    (htyped : (s.bindings.symbolOf? node).bind s.namespaceTypeOf? = some t)
    (h : node ∈ s.checkedNamespaces) : s.Remembers tree node := by
  refine ⟨fun _ hother hnot => ?_, fun _ _ => h, fun _ hnone => by simp [htyped] at hnone⟩
  obtain rfl := mem_unique hkind hother
  simp at hnot

theorem of_failed (hkind : tree.kind? node = some (.namespaceStatement parts))
    (hnone : (s.bindings.symbolOf? node).bind s.namespaceTypeOf? = none)
    (h : s.failure.isSome = true) : s.Remembers tree node := by
  refine ⟨fun _ hother hnot => ?_, fun _ htyped => by simp [hnone] at htyped, fun _ _ => h⟩
  obtain rfl := mem_unique hkind hother
  simp at hnot

/-- What is remembered is not forgotten. -/
theorem retains (h : s.Remembers tree node) (hretains : Retains s s') : s'.Remembers tree node := by
  have htype : (s'.bindings.symbolOf? node).bind s'.namespaceTypeOf? =
      (s.bindings.symbolOf? node).bind s.namespaceTypeOf? := by
    have hof : s'.namespaceTypeOf? = s.namespaceTypeOf? := funext fun symbol => by
      rw [namespaceTypeOf?, namespaceTypeOf?, mergedSymbol, mergedSymbol,
        hretains.mergedSymbols, hretains.namespaces]
    rw [hretains.bindings, hof]
  refine ⟨fun hnode hkind hnot hsym => ?_, fun hkind htyped => ?_, fun hkind hnone => ?_⟩
  · obtain ⟨t, ht⟩ := h.declared hnode hkind hnot (hretains.bindings ▸ hsym)
    exact hretains.declared ht
  · exact hretains.visited (h.visited hkind (htype ▸ htyped))
  · exact hretains.failure (h.failed hkind (htype ▸ hnone))

theorem enlist (h : s.Remembers tree node) (n : NodeId) (t : TypeId) :
    (s.enlist tree n t).Remembers tree node := by
  have hframe : Frame none s (s.enlist tree n t) := (s.enlist_filled tree n t).frame
  exact h.retains hframe.toRetains

/-- What is declared is remembered. -/
theorem declare (hkind : tree.kind? node = some kind)
    (hnot : kind.symbolKind? ≠ some .namespaceKind) (s : State) (known type : TypeId)
    (isTemplate : Bool) (key : List TypeId) :
    (s.declare (s.bindings.symbolOf? node) known type isTemplate key).Remembers tree node := by
  refine of_declared hkind hnot fun symbol hsym => ⟨known, ?_⟩
  rw [declare_eq] at hsym
  rw [show s.bindings.symbolOf? node = some symbol from hsym]
  exact declaredType?_declare s symbol known type isTemplate key

end State.Remembers

/-- What is recorded has been met. -/
theorem Closed.remembers {isTemplate : Bool}
    (hkind : env.tree.kind? node = some kind) (hnot : kind.symbolKind? ≠ some .namespaceKind)
    (h : Closed env.tree node key t isTemplate false s s') : s'.Remembers env.tree node := by
  cases h with
  | @declared _ s₁ heq =>
    have hdecl : s₁.Remembers env.tree node :=
      heq ▸ (State.Remembers.declare hkind hnot s t t isTemplate key).enlist node t
    exact { hdecl with }

/-- A node that is checked has been met. -/
theorem Evaluates.met (hwf : env.tree.WellFormed) (hframed : Framed env check)
    (h : Evaluates env check node s t s') (hopen : s.isInstantiating node = false) : s'.Met env.tree node := by
  cases h with
  | work hnot | literal hnot => exact .inl (.of_isRemembered hnot)
  | union hkind =>
    exact .inl (.of_isRemembered (by simp [isRemembered, isListed, hkind]))
  | known hkind hnot _ ht =>
    refine .inl (.of_declared hkind hnot fun symbol hsym => ⟨t, ?_⟩)
    rwa [declaredTypeOfNode?, hsym, bind_some] at ht
  | pending _ hpend => exact .inr (.inl ⟨_, t, hpend⟩)
  | construct _ _ _ _ _ _ hbuilt hclosed =>
    obtain ⟨kind, hkind, -, hnot⟩ := hbuilt.statement
    rw [hopen] at hclosed
    exact .inl (hclosed.remembers hkind hnot)
  | parameter hkind | intrinsic hkind | expression hkind =>
    exact .inl (.of_isRemembered (by simp [isRemembered, isListed, hkind]))
  | enum hkind _ _ hempty _ henum heq =>
    have hdecl := State.Remembers.declare hkind (by simp)
    have hframe := henum.frame hwf hframed hkind (entered_shape _ _) hempty
    exact .inl (heq ▸ ((hdecl _ _ _ _ _).retains hframe.toRetains).enlist node _)
  | operation hkind _ _ _ _ _ _ heq =>
    have hdecl := State.Remembers.declare hkind (by simp)
    exact .inl (heq ▸ (hdecl _ _ _ _ _).enlist node _)
  | cyclicAlias _ _ hmem hquiet =>
    rw [hquiet.eq]
    exact .inr (.inr ⟨_, hmem⟩)
  | aliased hkind =>
    rw [hopen]
    exact .inl (.declare hkind (by simp) _ _ _ _ _)
  | untyped hkind hnone =>
    exact .inl (.of_failed hkind hnone (s.isSome_failure_raise _))
  | visited hkind htype hmem => exact .inl (.of_visited hkind htype hmem)
  | contents hkind htype _ hleads hdec hstmts =>
    have hopened : Frame none _ s' := (hleads.frame hframed).trans (Frame.trans
      (.modifyNamespace _ fun n => .decorate n _) ((Frame.ofDecorated hdec).trans
        (visits_frame hframed hstmts)))
    refine .inl (.of_visited (t := t) hkind ?_
      (hopened.visited (List.mem_append_right _ (.head _))))
    rw [hopened.bindings, funext hopened.namespaceTypeOf]
    exact htype

theorem checkNode_meets (hwf : env.tree.WellFormed) (depth : Nat) : Meets env (checkNode depth) := by
  intro node s s' t hopen hrun
  cases depth with
  | zero => exact absurd hrun run_checkNode_zero
  | succ depth =>
    have hframed := checkNode_framed hwf depth
    exact (checkStep_evaluates hwf hframed hrun).met hwf hframed hopen

/-- A declaration whose type has been asked for has been met. -/
theorem Meets.declaredType (hmeets : Meets env check)
    (hrun : checkDeclaredType check symbol declaration env s = some (t, s')) :
    (∃ t, s'.declaredType? symbol = some t) ∨ s'.Met env.tree declaration := by
  obtain ⟨hknown, rfl⟩ | ⟨-, s₁, hinside, rfl⟩ := checkDeclaredType_cases hrun
  · exact .inl ⟨t, hknown⟩
  · refine .inr ((hmeets rfl hinside).imp_left fun hrems => ?_)
    exact { hrems with }

namespace Stepwise

section

variable {own : Option TypeId} (h : Stepwise env own R)

include h

/-! ### Template parameters -/

theorem ofParameter {p : NodeId} (hrun : checkTemplateParameter p env s = some (t, s')) :
    R s s' := by
  rcases checkTemplateParameter_cases hrun with ⟨rfl, -⟩ | ⟨-, ⟨rfl, -⟩ | ⟨hnone, rfl, rfl⟩⟩
  · exact h.refl _
  · exact h.refl _
  · exact h.parameter hnone

theorem ofKey (hrun : templateKey node env s = some (key, s')) : R s s' := by
  rcases templateKey_cases hrun with ⟨rfl, -⟩ | ⟨-, hrun⟩
  · exact h.refl _
  · exact mapM_preserves (h.refl _) (fun hbefore hp => h.trans hbefore (h.ofParameter hp)) hrun

/-! ### References -/

section

variable (hcheck : Relates env R check)

include hcheck

theorem ofDeclaredType
    (hrun : checkDeclaredType check symbol declaration env s = some (t, s')) : R s s' := by
  obtain ⟨-, rfl⟩ | ⟨-, s₁, hinside, rfl⟩ := checkDeclaredType_cases hrun
  · exact h.refl _
  · exact h.within (fun i hi => by simp at hi) (hcheck.framed.frame hinside) (hcheck.related hinside)

theorem ofInstance (henters : Enters env s (some ⟨declaration, arguments⟩))
    (hrun : instantiate check symbol declaration arguments env s = some (t, s')) : R s s' := by
  obtain ⟨-, rfl⟩ | ⟨-, ⟨-, rfl⟩ | ⟨-, s₁, hinside, rfl⟩⟩ := instantiate_cases hrun
  · exact h.refl _
  · exact h.refl _
  · exact h.trans (h.within henters (hcheck.framed.frame hinside) (hcheck.related hinside))
      (h.instantiated _ _ _ _)

theorem ofReferent {kind : SymbolKind}
    (hrun : checkReferent check symbol kind declaration env s = some (t, s')) : R s s' := by
  obtain ⟨-, hrun⟩ | ⟨-, ⟨-, rfl⟩ | hrun⟩ | ⟨-, -, hrun⟩ := checkReferent_cases hrun
  · exact h.ofParameter hrun
  · exact h.refl _
  · exact hcheck.related hrun
  · exact h.ofDeclaredType hcheck hrun

/-- References are followed. -/
theorem ofReference {symbol : Symbol} (hrefers : Refers env s template node id symbol declaration)
    (hrun : checkDeclaredReference check node id symbol.kind declaration given env s =
      some (t, s')) : R s s' := by
  obtain ⟨htabl, -, known, s₁, s₂, s₃, fitted, hdecl, hquiet, -, -, hinst, rfl⟩ |
    ⟨-, s₁, hrefnt, hquiet⟩ := checkDeclaredReference_cases hrun
  · have hbinds : s₂.bindings = s.bindings := by
      rw [hquiet.bindings, (checkDeclaredType_frame hcheck.framed hdecl).bindings]
    have henters : Enters env s₂ (some ⟨declaration, fitted⟩) := by
      intro i hi
      cases hi
      refine ⟨id, symbol, hbinds ▸ hrefers.found, hrefers.declared, htabl, ?_⟩
      rw [hquiet.eq]
      exact (Meets.declaredType hcheck.meets hdecl).imp_right fun hmet =>
        hmet.imp_left fun hrems => { hrems with }
    have hfirst := h.trans (h.ofDeclaredType hcheck hdecl) (h.quiet hquiet)
    exact h.trans hfirst (h.trans (h.ofInstance hcheck henters hinst) (h.reference _ _))
  · exact h.trans (h.ofReferent hcheck hrefnt) (h.trans (h.reference _ _) (h.quiet hquiet))

/-! ### Work -/

/-- All steps are related, if those that change the type under construction are. -/
theorem ofLeads
    (hamend : ∀ {id : TypeId} {s₁ : State} {known : List TypeId} {f : TypeShape → TypeShape},
      own = some id → Frame own s s₁ →
      (∀ {shape}, s₁.types.shape? id = some shape → shape.Amended s₁.types known id (f shape)) →
      R s₁ (s₁.modifyTypes fun types => types.modifyShape id f))
    (hnote : ∀ {s₁ : State} {reading : Reading}, own = some reading.reader → Frame own s s₁ →
      reading.AnsweredBy env check own s₁ → R s₁ { s₁ with readings := reading :: s₁.readings })
    (hleads : Leads env check template own floor s known s' P) : R s s' := by
  obtain ⟨known', hwork, -⟩ := hleads
  refine (hwork.preserves (P := fun m => R s m.state ∧ Frame own s m.state)
    (fun {m m'} hstep hm => ⟨h.trans hm.1 ?_, hm.2.trans (hstep.frame hcheck.framed)⟩)
    ⟨h.refl s, .refl _ _⟩).1
  have hframe := hm.2
  cases hstep with
  | quiet hquiet => exact h.quiet hquiet
  | raise hsym hnot hundecl => exact h.raised (.undeclared hsym hnot hundecl)
  | error | look => exact h.refl _
  | call _ hrun => exact hcheck.related hrun
  | refer hrefers _ hrun => exact h.ofReference hcheck hrefers hrun
  | push _ hplain hincid _ hfounded hfin =>
    exact h.added hplain hincid hfounded.member hfin
  | assemble hkind hnamed => exact h.assembled hkind hnamed
  | amend hown hamended => exact hamend hown hframe hamended
  | note hown hanswered => exact hnote hown hframe hanswered

end

end

section

variable (h : Stepwise env none R) (hcheck : Relates env R check)

include h hcheck

/-- All work without a type under construction is related. -/
theorem ofWork (hleads : Leads env check template none floor s known s' P) : R s s' :=
  h.ofLeads hcheck (fun hown => by simp at hown) (fun hown => by simp at hown) hleads

/-- Statements that are checked one after the other are related. -/
theorem ofVisits {statements : List NodeId} {u : PUnit}
    (hrun : statements.forM (fun statement => discard (check statement)) env s = some (u, s')) :
    R s s' :=
  visits_preserves (h.refl _) (fun hbefore hrun => h.trans hbefore (hcheck.related hrun)) hrun

end

end Stepwise

/-! ### Checks -/

/-- What has to be shown of a relation for all checks to keep to it. -/
structure Evolution (env : Environment) (R : State → State → Prop) : Prop
    extends Stepwise env none R where
  construct {check : Check} {node : NodeId} {s s₁ s₂ s' : State} {key : List TypeId}
    {stub : TypeShape} {marks : List TypeId} : Relates env R check →
    s.settledType? node = none → templateKey node env s = some (key, s₁) → R s s₁ →
    s₁.pending.find? (node, key) = none →
    stub.origin? = some (if s.isInstantiating node then key else [],
      if (env.tree.templateParameters node).isEmpty then none else some node) →
    Built env check node s₁.types.nextId stub marks (s₁.opened node key stub marks) s₂ →
    Closed env.tree node key s₁.types.nextId (!(env.tree.templateParameters node).isEmpty)
      (s.isInstantiating node) { s₂ with building := s₁.building } s' → R s s'
  expression {check : Check} {node : NodeId} {s s₁ : State} {members : List NodeId} :
    Relates env R check → env.tree.kind? node = some (.modelExpression members) →
    checkMembers check s.types.nextId node members env (s.drafted node) = some ((), s₁) →
    R s { s₁ with building := s.building }
  enum {check : Check} {node : NodeId} {s s₁ s₂ s₃ counted : State} {parts : EnumNode}
    {e : EnumType} {members : List TypeId} : Relates env R check →
    env.tree.kind? node = some (.enumStatement parts) → s.declaredTypeOfNode? node = none →
    R s s₁ → Frame none s s₁ → e.members = [] →
    Enumerates env check parts.members s₁.types.nextId
      (s₁.entered node (.enumType e)) counted s₃ members →
    Completes env check (env.tree.templateDeclarationOf? node) s₁.types.nextId s₁.types.size
      (s₁.entered node (.enumType e)) s₂ s₃ [s₁.types.nextId] →
    R s (s₃.enlist env.tree node s₁.types.nextId)
  operation {node : NodeId} {s s₁ s₂ : State} {parts : OperationNode} {operation : OperationType} :
    env.tree.kind? node = some (.operationStatement parts) → env.tree.isMember node = false →
    s.declaredTypeOfNode? node = none → operation.interface = none → R s s₁ → Frame none s s₁ →
    Finished ((s₁.addRow ⟨some node, .operation operation⟩).shouldFinish env.tree node)
      s₁.types.nextId (s₁.addRow ⟨some node, .operation operation⟩) s₂ →
    R s ((s₂.declare (s₂.bindings.symbolOf? node) s₁.types.nextId s₁.types.nextId false
      []).enlist env.tree node s₁.types.nextId)
  aliased {check : Check} {node : NodeId} {s s₁ s₂ : State} {t : TypeId} {parts : AliasNode}
    {key : List TypeId} : Relates env R check →
    env.tree.kind? node = some (.aliasStatement parts) →
    templateKey node env s = some (key, s₁) → R s s₁ →
    check parts.value env (s₁.openAlias (node, key)) = some (t, s₂) →
    R s (s₂.closeAlias env.tree node key t (s.isInstantiating node))
  contents {check : Check} {node : NodeId} {s s₁ s₂ s' : State} {t : TypeId}
    {parts : NamespaceNode} {decorators : List DecoratorApplication} :
    Relates env R check → env.tree.kind? node = some (.namespaceStatement parts) →
    (s.bindings.symbolOf? node).bind s.namespaceTypeOf? = some t → node ∉ s.checkedNamespaces →
    R (s.visiting node) s₁ →
    Decorated t decorators (s₁.decorateNamespace t decorators) s₂ →
    parts.statements.forM (fun statement => discard (check statement)) env s₂ = some ((), s') →
    R s s'

namespace Evolution

variable (h : Evolution env R)

include h

/-- Every check is made of such steps. -/
theorem ofEvaluates (hwf : env.tree.WellFormed) (hcheck : Relates env R check)
    (heval : Evaluates env check node s t s') : R s s' := by
  cases heval with
  | work _ hleads => exact h.ofWork hcheck hleads
  | union _ _ hleads =>
    exact h.trans (h.ofWork hcheck hleads)
      (h.added rfl (.of_isDeclared rfl) (by simp) (.inl rfl : Finished false _ _ _))
  | known | visited => exact h.refl _
  | parameter _ hrun => exact h.ofParameter hrun
  | literal _ hrun =>
    rcases checkLiteral_cases hrun with ⟨rfl, -⟩ | ⟨-, -, rfl⟩
    · exact h.refl _
    · exact h.literal s node _ _
  | intrinsic hkind hnone => exact h.intrinsic hkind hnone
  | pending hkey => exact h.ofKey hkey
  | construct hset hkey hpend horigin _ _ hbuilt hclosed =>
    exact h.construct hcheck hset hkey (h.ofKey hkey) hpend horigin hbuilt hclosed
  | expression hkind hmems => exact h.expression hcheck hkind hmems
  | enum hkind hnone hbefore hempty _ henum heq =>
    exact heq ▸ h.enum hcheck hkind hnone (h.ofWork hcheck hbefore)
      (hbefore.frame hcheck.framed) hempty henum
      (henum.completes hwf hcheck.framed _ hkind (entered_shape _ _) hempty)
  | operation hkind hmember hnone hiface _ hleads hfin heq =>
    exact heq ▸ h.operation hkind hmember hnone hiface (h.ofWork hcheck hleads)
      (hleads.frame hcheck.framed) hfin
  | cyclicAlias _ hkey _ hquiet => exact h.trans (h.ofKey hkey) (h.quiet hquiet)
  | aliased hkind _ hkey hvalue =>
    exact h.aliased hcheck hkind hkey (h.ofKey hkey) hvalue
  | untyped hkind hnone => exact h.raised (.untyped hkind hnone)
  | contents hkind htype hnot hleads hdec hstmts =>
    exact h.contents hcheck hkind htype hnot (h.ofWork hcheck hleads) hdec hstmts

/-- All checks are related, however deeply they are nested. -/
theorem relates (hwf : env.tree.WellFormed) (depth : Nat) : Relates env R (checkNode depth) := by
  refine ⟨⟨depth, rfl⟩, checkNode_framed hwf depth, checkNode_meets hwf depth, ?_⟩
  induction depth with
  | zero => exact fun hrun => absurd hrun run_checkNode_zero
  | succ depth ih =>
    intro node s s' t hrun
    have hframed := checkNode_framed hwf depth
    exact h.ofEvaluates hwf ⟨⟨depth, rfl⟩, hframed, checkNode_meets hwf depth, ih⟩
      (checkStep_evaluates hwf hframed hrun)

/-- So are the checks of nodes one after the other. -/
theorem checked (hwf : env.tree.WellFormed) (hchk : Checked env s s') : R s s' :=
  hchk.preserves (h.refl _) fun depth hbefore hrun =>
    h.trans hbefore ((h.relates hwf depth).related hrun)

end Evolution

end ApiSchema.Checking
