import ApiSchema.Proofs.Checking.Recording

/-!
# How a node is checked

`Evaluates` says everything that the check of a node can come to: work made of steps, the look-up of
what is known, or the construction of something that is recorded. A model or an interface is entered
into the table as a stub, built, and recorded; an enum is recorded before its members are built; an
alias is marked as open while its value is checked; a namespace has its statements checked when it
is first met. `checkStep_evaluates` is the inversion of the checker on which all that follows rests,
and a first consequence is that every check leaves alone what it has to.
-/

namespace ApiSchema.Checking

open TypeTable State Tree

variable {env : Environment} {check : Check} {node : NodeId} {s s' s₁ s₂ : State} {t type : TypeId}
  {key marks members arguments : List TypeId} {instantiating isTemplate : Bool} {e : EnumType}
  {stub : TypeShape} {parts : EnumNode} {u : Unit}

/-! ### What the check of a node can come to -/

/-- The state in which a model or an interface is entered and marked as under construction. -/
def State.opened (s : State) (node : NodeId) (key : List TypeId) (stub : TypeShape)
    (marks : List TypeId) : State :=
  { s.addRow ⟨some node, stub⟩ with
    pending := s.pending.insert (node, key) s.types.nextId
    building := marks ++ s.building }

/-- The state in which an anonymous model is entered and marked as being built. -/
def State.drafted (s : State) (node : NodeId) : State :=
  { s.addRow ⟨some node, .model .anonymous⟩ with building := s.types.nextId :: s.building }

/-- The state in which a declaration is entered with a new type. -/
def State.entered (s : State) (node : NodeId) (shape : TypeShape) : State :=
  (s.addRow ⟨some node, shape⟩).declare (s.bindings.symbolOf? node) s.types.nextId s.types.nextId
    false []

/-- The state in which a namespace statement is marked as visited. -/
def State.visiting (s : State) (node : NodeId) : State :=
  { s with checkedNamespaces := s.checkedNamespaces ++ [node] }

/-- The state in which a namespace gets more decorators. -/
def State.decorateNamespace (s : State) (t : TypeId) (decorators : List DecoratorApplication) :
    State :=
  s.modifyTypes fun types => types.modifyNamespace t fun contents =>
    { contents with decorators := contents.decorators ++ decorators }

/-- The state in which an alias is marked as being resolved. -/
def State.openAlias (s : State) (entry : NodeId × List TypeId) : State :=
  { s with openAliases := entry :: s.openAliases }

/-- The state in which an alias is no longer marked. -/
def State.leaveAlias (s : State) (entry : NodeId × List TypeId) : State :=
  { s with openAliases := s.openAliases.erase entry }

/-- The state in which an alias has been resolved. Outside its instances its type is recorded,
unless one is known. -/
def State.closeAlias (s : State) (tree : Tree) (node : NodeId) (key : List TypeId) (t : TypeId)
    (instantiating : Bool) : State :=
  let left := s.leaveAlias (node, key)
  if instantiating then left
  else left.declare (left.bindings.symbolOf? node) ((left.declaredTypeOfNode? node).getD t) t
    (!(tree.templateParameters node).isEmpty) key

/-- A model or an interface is built from a stub. -/
inductive Built (env : Environment) (check : Check) (node : NodeId) (t : TypeId) :
    TypeShape → List TypeId → State → State → Prop
  | model {parts : ModelNode} {m : ModelType} {s s' : State} :
    env.tree.kind? node = some (.modelStatement parts) → m.properties = .empty → m.base = none →
    buildModel check node parts t env s = some ((), s') → Built env check node t (.model m) [t] s s'
  | interface {parts : InterfaceNode} {i : InterfaceType} {s s' : State} :
    env.tree.kind? node = some (.interfaceStatement parts) → i.operations = .empty →
    buildInterface check node parts t env s = some ((), s') →
    Built env check node t (.interfaceType i) [] s s'

section

variable (h : Built env check node t stub marks s s')

include h

/-- What is built is a statement and no namespace. -/
theorem Built.statement :
    ∃ kind, env.tree.kind? node = some kind ∧ kind.role = .statement ∧
      kind.symbolKind? ≠ some .namespaceKind := by
  cases h with
  | model hkind => exact ⟨_, hkind, rfl, by simp⟩
  | interface hkind => exact ⟨_, hkind, rfl, by simp⟩

/-- At first a model or an interface refers to nothing but its template arguments. -/
theorem Built.links_eq {template : Option NodeId}
    (horigin : stub.origin? = some (arguments, template)) : stub.links = arguments := by
  cases h with
  | model _ hprops hbase =>
    cases horigin
    rw [TypeShape.links, hprops, hbase]
    rfl
  | interface _ hops =>
    cases horigin
    rw [TypeShape.links, hops]
    rfl

end

/-- A model or an interface that is complete is recorded, unless it is an instance, and is no longer
under construction. -/
inductive Closed (tree : Tree) (node : NodeId) (key : List TypeId) (t : TypeId)
    (isTemplate : Bool) : Bool → State → State → Prop
  | instantiated {s : State} :
    Closed tree node key t isTemplate true s { s with pending := s.pending.erase (node, key) }
  | declared {s s₁ : State} :
    s₁ = (s.declare (s.bindings.symbolOf? node) t t isTemplate key).enlist tree node t →
    Closed tree node key t isTemplate false s { s₁ with pending := s₁.pending.erase (node, key) }

/-- The members of an enum are checked and listed in it, and then its decorators are run. -/
structure Enumerates (env : Environment) (check : Check) (places : List NodeId) (type : TypeId)
    (s s₁ s' : State) (members : List TypeId) : Prop where
  checked : checkEnumMembers check type places [] env s = some (members, s₁)
  finished : Finished true type
    (s₁.modifyTypes fun types => types.modifyEnum type fun e => { e with members }) s'

/-- The outcome of the check of a node. -/
inductive Evaluates (env : Environment) (check : Check) (node : NodeId) :
    State → TypeId → State → Prop
  | work {s s' : State} {t : TypeId} : env.tree.isRemembered node = false →
    Leads env check (env.tree.templateDeclarationOf? node) none s.types.size s [] s' (t ∈ ·) →
    Evaluates env check node s t s'
  | known {s : State} {t : TypeId} {kind : NodeKind} : env.tree.kind? node = some kind →
    kind.symbolKind? ≠ some .namespaceKind →
    s.isInstantiating node = false ∨ env.tree.templateParameters node = [] →
    s.declaredTypeOfNode? node = some t → Evaluates env check node s t s
  | parameter {s s' : State} {t : TypeId} {name : String} :
    env.tree.kind? node = some (.templateParameterDeclaration name) →
    checkTemplateParameter node env s = some (t, s') → Evaluates env check node s t s'
  | literal {s s' : State} {t : TypeId} {literal : Literal} : env.tree.isRemembered node = false →
    checkLiteral node literal env s = some (t, s') → Evaluates env check node s t s'
  | intrinsic {s : State} {name : String} :
    env.tree.kind? node = some (.intrinsicStatement name) → s.declaredTypeOfNode? node = none →
    Evaluates env check node s s.types.nextId (s.entered node (.intrinsic name))
  | pending {s s' : State} {t : TypeId} {key : List TypeId} :
    templateKey node env s = some (key, s') → s'.pending.find? (node, key) = some t →
    Evaluates env check node s t s'
  | construct {s s₁ s₂ s' : State} {key : List TypeId} {stub : TypeShape} {marks : List TypeId} :
    s.settledType? node = none → templateKey node env s = some (key, s₁) →
    s₁.pending.find? (node, key) = none →
    stub.origin? = some (if s.isInstantiating node then key else [],
      if (env.tree.templateParameters node).isEmpty then none else some node) →
    Headed env s₁ node stub → stub.decorators = [] →
    Built env check node s₁.types.nextId stub marks (s₁.opened node key stub marks) s₂ →
    Closed env.tree node key s₁.types.nextId (!(env.tree.templateParameters node).isEmpty)
      (s.isInstantiating node) { s₂ with building := s₁.building } s' →
    Evaluates env check node s s₁.types.nextId s'
  | union {s s₁ : State} {operands : List NodeId} {lists : List (List TypeId)} :
    env.tree.kind? node = some (.unionExpression operands) →
    operands.mapM (checkOption check) env s = some (lists, s₁) →
    Leads env check (env.tree.templateDeclarationOf? node) none s.types.size s [] s₁
      (lists.flatten ⊆ ·) →
    Evaluates env check node s s₁.types.nextId (s₁.addRow ⟨some node, .union lists.flatten⟩)
  | expression {s s₁ : State} {members : List NodeId} :
    env.tree.kind? node = some (.modelExpression members) →
    checkMembers check s.types.nextId node members env (s.drafted node) = some ((), s₁) →
    Evaluates env check node s s.types.nextId { s₁ with building := s.building }
  | enum {s s₁ s₂ s₃ s' : State} {parts : EnumNode} {e : EnumType} {members : List TypeId} :
    env.tree.kind? node = some (.enumStatement parts) → s.declaredTypeOfNode? node = none →
    Leads env check (env.tree.templateDeclarationOf? node) none s.types.size s [] s₁
      (decoratorTypes e.decorators ⊆ ·) →
    e.members = [] → Headed env s₁ node (.enumType e) →
    Enumerates env check parts.members s₁.types.nextId
      (s₁.entered node (.enumType e)) s₂ s₃ members →
    s' = s₃.enlist env.tree node s₁.types.nextId →
    Evaluates env check node s s₁.types.nextId s'
  | operation {s s₁ s₂ s' : State} {parts : OperationNode} {operation : OperationType} :
    env.tree.kind? node = some (.operationStatement parts) → env.tree.isMember node = false →
    s.declaredTypeOfNode? node = none → operation.interface = none →
    Headed env s₁ node (.operation operation) →
    Leads env check (env.tree.templateDeclarationOf? node) none s.types.size s [] s₁
      (fun k => (TypeShape.operation operation).links ⊆ k ∧
        Founded s₁ k none ⟨some node, .operation operation⟩) →
    Finished ((s₁.addRow ⟨some node, .operation operation⟩).shouldFinish env.tree node)
      s₁.types.nextId (s₁.addRow ⟨some node, .operation operation⟩) s₂ →
    s' = (s₂.declare (s₂.bindings.symbolOf? node) s₁.types.nextId s₁.types.nextId false
      []).enlist env.tree node s₁.types.nextId →
    Evaluates env check node s s₁.types.nextId s'
  | cyclicAlias {s s₁ s' : State} {key : List TypeId} {parts : AliasNode} :
    env.tree.kind? node = some (.aliasStatement parts) →
    templateKey node env s = some (key, s₁) → (node, key) ∈ s₁.openAliases →
    Quiet s₁ s' → Evaluates env check node s errorType s'
  | aliased {s s₁ s₂ : State} {t : TypeId} {parts : AliasNode} {key : List TypeId} :
    env.tree.kind? node = some (.aliasStatement parts) → s.settledType? node = none →
    templateKey node env s = some (key, s₁) →
    check parts.value env (s₁.openAlias (node, key)) = some (t, s₂) →
    Evaluates env check node s t (s₂.closeAlias env.tree node key t (s.isInstantiating node))
  | untyped {s : State} {parts : NamespaceNode} :
    env.tree.kind? node = some (.namespaceStatement parts) →
    (s.bindings.symbolOf? node).bind s.namespaceTypeOf? = none →
    Evaluates env check node s errorType (s.raise (.untypedNamespace parts.name))
  | visited {s : State} {t : TypeId} {parts : NamespaceNode} :
    env.tree.kind? node = some (.namespaceStatement parts) →
    (s.bindings.symbolOf? node).bind s.namespaceTypeOf? = some t → node ∈ s.checkedNamespaces →
    Evaluates env check node s t s
  | contents {s s₁ s₂ s' : State} {t : TypeId} {parts : NamespaceNode}
    {decorators : List DecoratorApplication} :
    env.tree.kind? node = some (.namespaceStatement parts) →
    (s.bindings.symbolOf? node).bind s.namespaceTypeOf? = some t → node ∉ s.checkedNamespaces →
    Leads env check (env.tree.templateDeclarationOf? node) none s.types.size
      (s.visiting node) [] s₁
      (decoratorTypes decorators ⊆ ·) →
    Decorated t decorators (s₁.decorateNamespace t decorators) s₂ →
    parts.statements.forM (fun statement => discard (check statement)) env s₂ = some ((), s') →
    Evaluates env check node s t s'

/-- A type that is settled is known. -/
theorem evaluates_of_settled {kind : NodeKind} (hkind : env.tree.kind? node = some kind)
    (hnot : kind.symbolKind? ≠ some .namespaceKind) (h : s.settledType? node = some t) :
    Evaluates env check node s t s := by
  rw [settledType?] at h
  split at h
  · simp at h
  next hopen =>
    exact .known hkind hnot (.inl (by simpa using hopen)) h

/-! ### Inversion -/

/-- A model or an interface whose type is not known is entered, built and closed. -/
theorem construct_evaluates {kind : NodeKind} {listing : Listing} {name : String}
    {parameters : List NodeId} {stub : Option TypeId → List TypeId → Option NodeId → TypeShape}
    {build : TypeId → CheckM Unit} {list : TypeId → NamespaceType → NamespaceType}
    (hkind : env.tree.kind? node = some kind) (hnot : kind.symbolKind? ≠ some .namespaceKind)
    (hparams : env.tree.templateParameters node = parameters)
    (hlisting : kind.listing? = some (listing, name)) (hlist : ∀ t, list t = .enlist listing name t)
    (hbuild : ∀ {s₁ s₂ key arguments template shape},
      shape = stub (s₁.parentNamespaceType? node) arguments template →
      build s₁.types.nextId env (s₁.opened node key shape []) = some ((), s₂) →
      shape.origin? = some (arguments, template) ∧ Headed env s₁ node shape ∧
        shape.decorators = [] ∧ ∃ marks s₃,
          Built env check node s₁.types.nextId shape marks (s₁.opened node key shape marks) s₃ ∧
          s₂ = { s₃ with building := s₁.building })
    (h : construct node parameters stub build list env s = some (t, s')) :
    Evaluates env check node s t s' := by
  subst hparams
  simp only [Checking.construct, get_bind] at h
  obtain ⟨hset, rfl⟩ | ⟨hset, h⟩ := run_known h
  · exact evaluates_of_settled hkind hnot hset
  · simp only [get_bind] at h
    obtain ⟨key, s₁, hkey, h⟩ := run_bind.mp h
    simp only [get_bind] at h
    obtain ⟨hpend, rfl⟩ | ⟨hpend, h⟩ := run_known h
    · exact .pending hkey hpend
    · simp only [addType_bind, modify_bind, get_bind] at h
      obtain ⟨_, s₂, hrun, h⟩ := run_bind.mp h
      obtain ⟨horigin, hheaded, hdecs, marks, s₃, hbuilt, rfl⟩ := hbuild rfl hrun
      suffices hclosed : t = s₁.types.nextId ∧ Closed env.tree node key s₁.types.nextId
          (!(env.tree.templateParameters node).isEmpty) (s.isInstantiating node)
          { s₃ with building := s₁.building } s' from
        hclosed.1 ▸ .construct hset hkey hpend horigin hheaded hdecs hbuilt hclosed.2
      cases hinst : s.isInstantiating node with
      | true =>
        simp only [hinst, Bool.not_true, Bool.false_eq_true, if_false, modify_bind] at h
        obtain ⟨rfl, rfl⟩ := run_pure.mp h
        exact ⟨rfl, .instantiated⟩
      | false =>
        simp only [hinst, Bool.not_false, if_true, get_bind] at h
        obtain ⟨_, s₄, hrec, h⟩ := run_bind.mp h
        simp only [get_bind] at h
        obtain ⟨_, s₅, hadd, h⟩ := run_bind.mp h
        simp only [modify_bind] at h
        obtain ⟨rfl, rfl⟩ := run_pure.mp h
        obtain rfl := run_recordDeclared.mp hrec
        exact ⟨rfl, .declared (run_addToNamespace hkind hlisting rfl (hlist _ ▸ hadd))⟩

/-- A model is known, pending or constructed. -/
theorem checkModel_evaluates {parts : ModelNode}
    (hkind : env.tree.kind? node = some (.modelStatement parts))
    (h : checkModel check node parts env s = some (t, s')) : Evaluates env check node s t s' := by
  refine construct_evaluates hkind (by simp) (templateParameters_of_kind hkind) rfl (fun _ => rfl)
    (fun hshape hrun => ?_) h
  obtain ⟨s₃, hbuild, rfl⟩ := run_whileBuilding.mp hrun
  subst hshape
  have hname : env.tree.declaredName? node = some parts.name := by
    simp [declaredName?, hkind, NodeKind.declaredName?]
  exact ⟨rfl, ⟨by rw [hname]; rfl, by rfl⟩, rfl, _, s₃, .model hkind rfl rfl hbuild, rfl⟩

/-- What is opened is the stub. -/
theorem opened_shape (node : NodeId) (key : List TypeId) (stub : TypeShape) (marks : List TypeId) :
    (s.opened node key stub marks).types.shape? s.types.nextId = some stub :=
  shape?_push_nextId _

section

variable (hwf : env.tree.WellFormed) (hcheck : Framed env check)
  (h : Built env check node s.types.nextId stub marks (s.opened node key stub marks) s')

include hwf hcheck h

/-- A model or an interface is built by steps, and then its decorators are run if it is complete. -/
theorem Built.completes :
    ∃ s₁, Completes env check (env.tree.templateDeclarationOf? node) s.types.nextId s.types.size
      (s.opened node key stub marks) s₁ s' [s.types.nextId] := by
  have hfloor : s.types.size ≤ (s.opened node key stub marks).types.size :=
    (Grows.push s.types _).size_le
  cases h with
  | model hkind _ hbase hbuild =>
    exact buildModel_completes hwf hcheck hkind hfloor
      ⟨_, model?_eq_some_iff.mpr (opened_shape _ _ _ _), hbase⟩ hbuild
  | interface hkind hempty hbuild =>
    exact buildInterface_completes hwf hcheck (.head _) hkind rfl hfloor
      ⟨_, opened_shape _ _ _ _, hempty⟩ hbuild

/-- Only the new type is built. -/
theorem Built.frame_own :
    Frame (some s.types.nextId) (s.opened node key stub marks) s' := by
  obtain ⟨s₁, hcomps⟩ := h.completes hwf hcheck
  exact hcomps.frame hcheck

end

/-- So is an interface. -/
theorem checkInterface_evaluates (hwf : env.tree.WellFormed) (hcheck : Framed env check)
    {parts : InterfaceNode}
    (hkind : env.tree.kind? node = some (.interfaceStatement parts))
    (h : checkInterface check node parts env s = some (t, s')) :
    Evaluates env check node s t s' := by
  refine construct_evaluates hkind (by simp) (templateParameters_of_kind hkind) rfl (fun _ => rfl)
    (fun {_ s₂ _ _ _ _} hshape hrun => ?_) h
  subst hshape
  have hname : env.tree.declaredName? node = some parts.name := by
    simp [declaredName?, hkind, NodeKind.declaredName?]
  have hframe := Built.frame_own hwf hcheck (.interface hkind (by rfl) hrun)
  exact ⟨rfl, ⟨by rw [hname]; rfl, by rfl⟩, rfl, [], _, .interface hkind rfl hrun,
    congrArg (fun building => { s₂ with building }) hframe.building⟩

/-- An intrinsic type is known or entered. -/
theorem checkIntrinsic_evaluates {name : String}
    (hkind : env.tree.kind? node = some (.intrinsicStatement name))
    (h : checkIntrinsic node name env s = some (t, s')) : Evaluates env check node s t s' := by
  simp only [checkIntrinsic, get_bind] at h
  obtain ⟨hknown, rfl⟩ | ⟨hnone, h⟩ := run_known h
  · exact .known hkind (by simp) (.inr (templateParameters_of_kind hkind)) hknown
  · simp only [addType_bind, get_bind] at h
    have hresult : Evaluates env check node s s.types.nextId _ := .intrinsic hkind hnone
    cases hsym : s.bindings.symbolOf? node with
    | none =>
      simp only [addRow, modifyTypes, hsym] at h
      obtain ⟨rfl, rfl⟩ := run_pure.mp h
      rwa [entered, hsym] at hresult
    | some symbol =>
      simp only [addRow, modifyTypes, hsym, modify_bind] at h
      obtain ⟨rfl, rfl⟩ := run_pure.mp h
      rwa [entered, hsym] at hresult

/-- What is entered has its shape. -/
theorem entered_shape (node : NodeId) (shape : TypeShape) :
    (s.entered node shape).types.shape? s.types.nextId = some shape := by
  rw [entered, declare_eq]
  exact shape?_push_nextId _

section

variable (hwf : env.tree.WellFormed) (hcheck : Framed env check)

include hwf hcheck

/-- An enum is filled in by steps, and then its decorators are run. -/
theorem Enumerates.completes (floor : Nat)
    (hkind : env.tree.kind? node = some (.enumStatement parts))
    (hshape : s.types.shape? type = some (.enumType e)) (hempty : e.members = [])
    (h : Enumerates env check parts.members type s s₁ s' members) :
    Completes env check (env.tree.templateDeclarationOf? node) type floor s
      (s₁.modifyTypes fun types => types.modifyEnum type fun e => { e with members }) s' [type] := by
  have hin : ∀ n ∈ parts.members, env.tree.templateDeclarationOf? n =
      env.tree.templateDeclarationOf? node := fun n hn =>
    inside_child hwf hkind rfl (by simp [hn]) rfl
  have houtside : env.tree.templateDeclarationOf? node = none :=
    hwf.templateDeclarationOf_statement hkind rfl (templateParameters_of_kind hkind)
  refine ⟨?_, true, h.finished, fun _ => .outside houtside⟩
  refine (checkEnumMembers_leads hwf rfl (.head _) houtside hin h.checked).bind
    fun known₁ _ hknown => enlistMembers_leads rfl ⟨e, ?_, hempty⟩ hknown
  have hframe : Frame none s s₁ := checkEnumMembers_frame hwf hcheck h.checked
  exact hframe.shape (by simp) hshape rfl

/-- Only the enum is filled in. -/
theorem Enumerates.frame (hkind : env.tree.kind? node = some (.enumStatement parts))
    (hshape : s.types.shape? type = some (.enumType e)) (hempty : e.members = [])
    (h : Enumerates env check parts.members type s s₁ s' members) : Frame (some type) s s' :=
  (h.completes hwf hcheck 0 hkind hshape hempty).frame hcheck

/-- An enum is known or built. -/
theorem checkEnum_evaluates (hkind : env.tree.kind? node = some (.enumStatement parts))
    (h : checkEnum check node parts env s = some (t, s')) : Evaluates env check node s t s' := by
  simp only [checkEnum, get_bind] at h
  obtain ⟨hknown, rfl⟩ | ⟨hnone, h⟩ := run_known h
  · exact .known hkind (by simp) (.inr (templateParameters_of_kind hkind)) hknown
  · simp only [buildEnum, get_bind] at h
    obtain ⟨decorators, s₁, hdecs, h⟩ := run_bind.mp h
    simp only [addType_bind, get_bind] at h
    obtain ⟨_, s₂, hrec, h⟩ := run_bind.mp h
    have hdecl := run_recordDeclared.mp hrec
    obtain ⟨members, s₃, hmems, hrest⟩ := run_bind.mp h
    simp only [modify_bind] at hrest
    obtain ⟨_, s₄, hfinish, hrest⟩ := run_bind.mp hrest
    obtain ⟨_, hadd, rfl⟩ := run_bind_pure.mp hrest
    have hbefore : Leads env check (env.tree.templateDeclarationOf? node) none s.types.size s [] s₁
        (decoratorTypes decorators ⊆ ·) := checkDecorators_leads hwf rfl hdecs
    have hpar := (hbefore.frame hcheck).parentNamespaceType node
    let e : EnumType := ⟨parts.name, s.parentNamespaceType? node, [], decorators⟩
    have hshape : s₂.types.shape? s₁.types.nextId = some (.enumType e) := by
      rw [hdecl]
      exact entered_shape _ _
    have henum : Enumerates env check parts.members s₁.types.nextId s₂ s₃ s₄ members :=
      ⟨hmems, Or.inr ⟨rfl, finishType_decorated hfinish⟩⟩
    have hadded : Frame none s₁ s₂ :=
      hdecl ▸ Frame.trans (.addRow (by simp)) (declare_frame _ _ _ _ _)
    have hheaded : Headed env s₁ node (.enumType e) :=
      ⟨by simp [e, TypeShape.name?, declaredName?, hkind, NodeKind.declaredName?], hpar.symm⟩
    refine .enum hkind hnone hbefore rfl hheaded (hdecl ▸ henum)
      (run_addToNamespace hkind rfl ?_ hadd)
    rw [(henum.frame hwf hcheck hkind hshape rfl).parentNamespaceType,
      hadded.parentNamespaceType, hpar]

/-- An operation is found in its interface, known or built. -/
theorem checkOperationNode_evaluates {parts : OperationNode}
    (hkind : env.tree.kind? node = some (.operationStatement parts))
    (h : checkOperationNode check node parts env s = some (t, s')) :
    Evaluates env check node s t s' := by
  simp only [checkOperationNode, getTree_bind] at h
  replace h := run_chosen h
  split at h
  next parent _ hpar hparentKind =>
    obtain ⟨interface, s₁, hiface, h⟩ := run_bind.mp h
    have hin : env.tree.templateDeclarationOf? parent = env.tree.templateDeclarationOf? node :=
      (hwf.templateDeclarationOf_parent hpar (templateParameters_of_kind hkind)).symm
    have hmember : env.tree.isRemembered node = false := by
      simp [isRemembered, isListed, hkind, isMember, hparentKind]
    refine .work hmember ((Leads.call hin hiface).bind fun known₁ _ hknown => ?_)
    simp only [getTypes_bind] at h
    obtain ⟨hexist, rfl⟩ | ⟨-, h⟩ := run_known h
    · obtain ⟨hnamed, -⟩ := Option.filter_eq_some_iff.mp hexist
      obtain ⟨i, hi, hfind⟩ := Option.bind_eq_some_iff.mp hnamed
      refine .reach hknown (.single ⟨_, interface?_eq_some_iff.mp hi, ?_⟩)
      exact List.mem_append_left _
        (List.mem_map.mpr ⟨_, OrderedMap.find?_eq_some_iff.mp hfind, rfl⟩)
    · exact (checkMemberOperation_leads hwf hcheck hkind rfl (hcheck.frame hiface).grows.size_le
        hknown h).bind fun _ _ hadded => .done hadded.1
  next hother =>
    have hmember : env.tree.isMember node = false := by
      rw [isMember]
      split
      next hiface =>
        obtain ⟨parent, hpar, -⟩ := Option.bind_eq_some_iff.mp hiface
        exact absurd hiface (hother parent _ hpar)
      · rfl
    simp only [Chosen, checkOperation, Option.isSome_none, Bool.false_eq_true, if_false, get_bind] at h
    obtain ⟨hknown, rfl⟩ | ⟨hnone, h⟩ := run_known h
    · exact .known hkind (by simp) (.inr (templateParameters_of_kind hkind))
        hknown
    · obtain ⟨s₁, s₂, operation, hiface, hheaded, hleads, rfl, hfin, hrest⟩ :=
        @buildOperation_cases _ _ _ none s.types.size _ _ [] hwf hcheck _ _ _ _ hkind rfl (by simp) h
      rcases hrest with ⟨rfl, htempl⟩ | ⟨-, hrec⟩
      · have hinside : env.tree.isRemembered node = false := by
          have hne : env.tree.templateDeclarationOf? node ≠ none := fun heq => htempl heq rfl
          simp [isRemembered, isListed, hkind, hne]
        have hadded : Frame none s₁ (s₁.addRow ⟨some node, .operation operation⟩) :=
          .addRow (by simp)
        have hfloor := Nat.le_trans (hleads.floor_le hcheck (Nat.le_refl _)) hadded.grows.size_le
        exact .work hinside (hleads.bind fun known₁ _ hfounded => .push (some node) rfl
          (fun _ n hn => Option.some.inj hn ▸ isListed_of_isRemembered hinside) hfounded.1
          hfounded.2 hfin (Underway.judge rfl hfloor).ready)
      · simp only [recordOperation, get_bind] at hrec
        obtain ⟨_, s₃, hdeclare, hadd⟩ := run_bind.mp hrec
        simp only [get_bind] at hadd
        obtain rfl := run_recordDeclared.mp hdeclare
        exact .operation hkind hmember hnone hiface hheaded hleads hfin
          (run_addToNamespace hkind rfl rfl hadd)

end

/-- An alias is recorded like a declaration. -/
theorem recordAlias_eq {parts : AliasNode} {symbol : Option SymbolId} {known : TypeId} :
    checkAlias.recordAlias parts symbol known type key env s = some (u, s') ↔
      s' = s.declare symbol known type (!parts.templateParameters.isEmpty) key := by
  cases symbol with
  | none => exact run_pure.trans (and_iff_right rfl)
  | some symbol =>
    refine run_modify.trans ?_
    rw [declare]
    cases parts.templateParameters.isEmpty <;> exact Iff.rfl

/-- An alias is known, cyclic or resolved. -/
theorem checkAlias_evaluates {parts : AliasNode}
    (hkind : env.tree.kind? node = some (.aliasStatement parts))
    (h : checkAlias check node parts env s = some (t, s')) : Evaluates env check node s t s' := by
  have hparams : env.tree.templateParameters node = parts.templateParameters :=
    templateParameters_of_kind hkind
  simp only [checkAlias, get_bind] at h
  obtain ⟨hset, rfl⟩ | ⟨hset, h⟩ := run_known h
  · exact evaluates_of_settled hkind (by simp) hset
  · simp only [get_bind] at h
    obtain ⟨key, s₁, hkey, h⟩ := run_bind.mp h
    simp only [get_bind] at h
    split at h
    next hopen =>
      obtain ⟨rfl, hquiet, -⟩ := run_reported h
      exact .cyclicAlias hkind hkey hopen hquiet
    · simp only [modify_bind] at h
      obtain ⟨type, s₂, hvalue, h⟩ := run_bind.mp h
      have hresult := Evaluates.aliased hkind hset hkey hvalue
      simp only [modify_bind] at h
      cases hinst : s.isInstantiating node with
      | true =>
        simp only [hinst, Bool.not_true, Bool.false_eq_true, if_false] at h
        obtain ⟨rfl, rfl⟩ := run_pure.mp h
        rwa [hinst] at hresult
      | false =>
        simp only [hinst, Bool.not_false, if_true, get_bind] at h
        obtain ⟨_, hrec, rfl⟩ := run_bind_pure.mp h
        rw [hinst, closeAlias, hparams] at hresult
        rw [recordAlias_eq.mp hrec]
        exact hresult

/-- A namespace is visited once. -/
theorem checkNamespace_evaluates (hwf : env.tree.WellFormed) {parts : NamespaceNode}
    (hkind : env.tree.kind? node = some (.namespaceStatement parts))
    (h : checkNamespace check node parts env s = some (t, s')) :
    Evaluates env check node s t s' := by
  simp only [checkNamespace, get_bind] at h
  replace h := run_chosen h
  split at h
  next hnone =>
    obtain ⟨rfl, rfl⟩ := run_internalError.mp h
    exact .untyped hkind hnone
  next type htype =>
    simp only [Chosen, get_bind] at h
    split at h
    next hchk =>
      obtain ⟨rfl, rfl⟩ := run_pure.mp h
      exact .visited hkind htype hchk
    next hchk =>
      simp only [modify_bind] at h
      obtain ⟨decorators, s₁, hdecs, h⟩ := run_bind.mp h
      simp only [modify_bind] at h
      obtain ⟨_, s₂, hrun, h⟩ := run_bind.mp h
      obtain ⟨_, hstmts, rfl⟩ := run_bind_pure.mp h
      exact .contents hkind htype hchk (checkDecorators_leads hwf rfl hdecs)
        (runDecorators_decorated hrun) hstmts

/-- Everything that the check of a node can come to. -/
theorem checkStep_evaluates (hwf : env.tree.WellFormed) (hcheck : Framed env check)
    (h : checkStep check node env s = some (t, s')) : Evaluates env check node s t s' := by
  simp only [checkStep, getTree_bind] at h
  replace h := run_chosen h
  split at h <;> rename_i hkind
  · exact checkModel_evaluates hkind h
  · rw [checkModelExpression] at h
    simp only [Chosen, addType_bind] at h
    obtain ⟨_, s₁, hwhile, h⟩ := run_bind.mp h
    obtain ⟨s₂, hmems, rfl⟩ := run_whileBuilding.mp hwhile
    obtain ⟨rfl, rfl⟩ := run_pure.mp h
    exact .expression hkind hmems
  · exact .work (by simp [isRemembered, isListed, hkind])
      (checkPropertyNode_leads hwf hcheck hkind rfl (Nat.le_refl _) h)
  · exact checkNamespace_evaluates hwf hkind h
  · exact checkOperationNode_evaluates hwf hcheck hkind h
  · exact checkInterface_evaluates hwf hcheck hkind h
  · exact checkEnum_evaluates hwf hcheck hkind h
  · exact .work (by simp [isRemembered, isListed, hkind]) (checkEnumMemberNode_leads hwf hkind rfl h)
  · exact checkAlias_evaluates hkind h
  · exact checkIntrinsic_evaluates hkind h
  · exact .parameter hkind h
  · exact .work (by simp [isRemembered, isListed, hkind])
      (checkTypeReference_leads hwf hcheck hkind rfl h)
  · obtain ⟨lists, s₁, hoptions, h⟩ := run_bind.mp h
    obtain ⟨rfl, rfl⟩ := run_addType.mp h
    exact .union hkind hoptions (checkOptions_leads hwf hkind rfl hoptions)
  · exact .work (by simp [isRemembered, isListed, hkind])
      (checkIntersection_leads hwf hcheck hkind rfl (Nat.le_refl _) h)
  · exact .work (by simp [isRemembered, isListed, hkind]) (checkArray_leads hwf hkind rfl h)
  · exact .work (by simp [isRemembered, isListed, hkind]) (checkTuple_leads hwf hkind rfl h)
  · exact .literal (by simp [isRemembered, isListed, hkind]) h
  · exact .literal (by simp [isRemembered, isListed, hkind]) h
  · exact .literal (by simp [isRemembered, isListed, hkind]) h
  · obtain ⟨rfl, rfl⟩ := run_pure.mp h
    have hother : env.tree.isRemembered node = false := by
      rw [isRemembered, isListed]
      split
      · simp_all
      · simp_all
      · split <;> simp_all
    exact .work hother (.step (.error _ _) List.mem_cons_self)

/-! ### Checks are framed -/

/-- A literal has a type that is known or gets one. -/
theorem checkLiteral_cases {literal : Literal}
    (h : checkLiteral node literal env s = some (t, s')) :
    (s' = s ∧ s.literalTypes.find? literal = some t) ∨
    s.literalTypes.find? literal = none ∧ t = s.types.nextId ∧
      s' = { s.addRow ⟨some node, literal.shape⟩ with
        literalTypes := s.literalTypes.insert literal t } := by
  simp only [checkLiteral, get_bind] at h
  obtain ⟨hknown, rfl⟩ | ⟨hnone, h⟩ := run_known h
  · exact .inl ⟨rfl, hknown⟩
  · simp only [addType_bind, modify_bind, run_pure] at h
    obtain ⟨rfl, rfl⟩ := h
    exact .inr ⟨hnone, rfl, rfl⟩

/-- What is closed is recorded in the frame. -/
theorem Closed.frame (h : Closed env.tree node key t isTemplate instantiating s s') :
    ∃ s₁, Frame none s s₁ ∧ s' = { s₁ with pending := s₁.pending.erase (node, key) } := by
  cases h with
  | instantiated => exact ⟨s, .refl _ _, rfl⟩
  | declared heq =>
    exact ⟨_, heq ▸ (declare_frame _ _ _ _ _).trans (enlist_filled _ _ _ _).frame, rfl⟩

/-- The members of a model expression are checked by steps. -/
theorem checkExpression_leads (hwf : env.tree.WellFormed) (hcheck : Framed env check)
    {members : List NodeId} (hkind : env.tree.kind? node = some (.modelExpression members))
    (h : checkMembers check s.types.nextId node members env (s.drafted node) = some ((), s')) :
    Leads env check (env.tree.templateDeclarationOf? node) (some s.types.nextId) s.types.size
      (s.drafted node) []
      s' fun _ => True :=
  checkMembers_leads hwf hcheck rfl (Grows.push s.types _).size_le rfl
    (fun _ hn => inside_child hwf hkind rfl hn rfl) h

/-- Statements are checked in the frame. -/
theorem visits_frame (hcheck : Framed env check) {statements : List NodeId} {u : PUnit}
    (h : statements.forM (fun statement => discard (check statement)) env s = some (u, s')) :
    Frame none s s' :=
  visits_preserves (P := (Frame none s ·)) (.refl _ _)
    (fun hbefore hrun => hbefore.trans (hcheck.frame hrun)) h

section

variable (hwf : env.tree.WellFormed) (hcheck : Framed env check)

include hwf hcheck

/-- What is constructed is new, so that nothing else is changed by it. -/
theorem Built.frame (hpend : s.pending.find? (node, key) = none)
    (h : Built env check node s.types.nextId stub marks (s.opened node key stub marks) s₂)
    (hclosed : Closed env.tree node key t isTemplate instantiating
      { s₂ with building := s.building } s') :
    Frame none s s' := by
  obtain ⟨s₃, hframe₃, rfl⟩ := hclosed.frame
  have hframe₂ := h.frame_own hwf hcheck
  have hrestored : Frame (some s.types.nextId) (s.addRow ⟨some node, stub⟩)
      { s₂ with building := s.building, pending := s.pending } :=
    hframe₂.within rfl hframe₂.context rfl rfl hframe₂.openAliases
  have hclosed : Frame none { s₂ with building := s.building, pending := s.pending }
      { s₃ with pending := s₃.pending.erase (node, key) } := by
    refine Frame.within (s := { s₂ with building := s.building, pending := s.pending }) hframe₃ rfl
      hframe₃.context ?_ hframe₃.building hframe₃.openAliases
    rw [hframe₃.pending, hframe₂.pending]
    exact OrderedMap.erase_insert _ hpend
  have hadded : Frame none s (s.addRow ⟨some node, stub⟩) := .addRow (by cases h <;> simp)
  exact ((hadded.mono _).trans (hrestored.trans (hclosed.mono _))).forget not_has_nextId none

/-- Whatever the check of a node comes to stays in the frame. -/
theorem Evaluates.frame (h : Evaluates env check node s t s') : Frame none s s' := by
  cases h with
  | work _ h => exact h.frame hcheck
  | union _ _ hleads => exact (hleads.frame hcheck).trans (.addRow (by simp))
  | known | visited => exact .refl _ _
  | parameter _ h => exact checkTemplateParameter_frame h
  | @literal _ _ literal _ h =>
    rcases checkLiteral_cases h with ⟨rfl, -⟩ | ⟨-, -, rfl⟩
    · exact .refl _ _
    · have hadded : Frame none s (s.addRow ⟨some node, literal.shape⟩) :=
        .addRow (by cases literal <;> simp)
      exact { hadded with }
  | intrinsic => exact Frame.trans (.addRow (by simp)) (declare_frame _ _ _ _ _)
  | pending h => exact templateKey_frame h
  | construct _ hkey hpend _ _ _ hbuilt hclosed =>
    exact (templateKey_frame hkey).trans (hbuilt.frame hwf hcheck hpend hclosed)
  | @expression s₁ members hkind hmems =>
    have hframe := (checkExpression_leads hwf hcheck hkind hmems).frame hcheck
    have hadded : Frame none s (s.addRow ⟨some node, .model .anonymous⟩) := .addRow (by simp)
    have hrestored : Frame (some s.types.nextId) (s.addRow ⟨some node, .model .anonymous⟩)
        { s₁ with building := s.building } :=
      hframe.within rfl hframe.context hframe.pending rfl hframe.openAliases
    exact ((hadded.mono _).trans hrestored).forget not_has_nextId none
  | enum hkind _ hbefore hempty _ henum heq =>
    refine (hbefore.frame hcheck).trans (Frame.trans ?_ (heq ▸ (enlist_filled _ _ _ _).frame))
    exact (Frame.trans (Frame.trans (.addRow (by simp)) (declare_frame _ _ _ _ _))
      (henum.frame hwf hcheck hkind (entered_shape _ _) hempty)).forget not_has_nextId none
  | operation _ _ _ _ _ hleads hfin heq =>
    have hbuilt := (hleads.frame hcheck).trans (Frame.trans (.addRow (by simp)) (.ofFinished hfin))
    exact hbuilt.trans (heq ▸ (declare_frame _ _ _ _ _).trans (enlist_filled _ _ _ _).frame)
  | @contents s₁ s₂ _ _ _ _ _ _ _ hleads hdec hstmts =>
    have hmarked : Frame none s (s.visiting node) :=
      { Frame.refl none s with visited := List.subset_append_left _ _ }
    have hopened := hmarked.trans ((hleads.frame hcheck).trans
      (Frame.trans (.modifyNamespace _ fun n => .decorate n _) (.ofDecorated hdec)))
    exact hopened.trans (visits_frame hcheck hstmts)
  | cyclicAlias _ hkey _ hquiet => exact (templateKey_frame hkey).trans (.ofQuiet hquiet)
  | untyped => exact .raise _
  | @aliased s₁ s₂ _ _ key _ _ hkey hvalue =>
    refine (templateKey_frame hkey).trans ?_
    have hframe := hcheck.frame hvalue
    have hrestored : Frame none s₁ (s₂.leaveAlias (node, key)) := by
      refine hframe.within rfl hframe.context hframe.pending hframe.building ?_
      rw [leaveAlias, hframe.openAliases]
      exact List.erase_cons_head ..
    dsimp only [closeAlias]
    split
    · exact hrestored
    · exact hrestored.trans (declare_frame _ _ _ _ _)

/-- The type of a model expression is a model. -/
theorem checkStep_expression {members : List NodeId}
    (hkind : env.tree.kind? node = some (.modelExpression members))
    (h : checkStep check node env s = some (t, s')) :
    ∃ m, s'.types.shape? t = some (.model m) := by
  simp only [checkStep, getTree_bind, hkind, checkModelExpression, addType_bind] at h
  obtain ⟨_, s₁, hwhile, h⟩ := run_bind.mp h
  obtain ⟨s₂, hmems, rfl⟩ := run_whileBuilding.mp hwhile
  obtain ⟨rfl, rfl⟩ := run_pure.mp h
  have hframe := (checkExpression_leads hwf hcheck hkind hmems).frame hcheck
  obtain ⟨m, hm, -⟩ := hframe.grows.model (model?_eq_some_iff.mpr (shape?_push_nextId _))
  exact ⟨m, model?_eq_some_iff.mp hm⟩

/-- A check made of framed checks is framed. -/
theorem checkStep_framed :
    Framed env (checkStep check) where
  frame h := (checkStep_evaluates hwf hcheck h).frame hwf hcheck
  expression hkind h := checkStep_expression hwf hcheck hkind h

end

/-- Every check leaves alone what it has to, however deeply it is nested. -/
theorem checkNode_framed (hwf : env.tree.WellFormed) (depth : Nat) :
    Framed env (checkNode depth) := by
  induction depth with
  | zero =>
    exact ⟨fun h => absurd h run_checkNode_zero, fun _ h => absurd h run_checkNode_zero⟩
  | succ depth ih => exact checkStep_framed hwf ih

end ApiSchema.Checking
