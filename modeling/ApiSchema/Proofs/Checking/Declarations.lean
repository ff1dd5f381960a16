import ApiSchema.Proofs.Checking.Building

/-!
# Operations, interfaces and enums

The computations that build what is declared besides models are made of steps. What is recorded
after that, or while it is done, is no step; `Evaluation` has it.
-/

namespace ApiSchema.Checking

open TypeTable OrderedMap NodeKind Option List TypeShape

variable {env : Environment} {check : Check} {template place : Option NodeId} {own : Option TypeId}
  {floor : Nat} {s s' : State} {known : List TypeId} {node mixin : NodeId}
  {t source type enumType interface : TypeId} {finish : Bool} {types : TypeTable}
  {operations : OrderedMap String TypeId} {seen : List String} (hwf : env.tree.WellFormed)
  (hcheck : Framed env check)

/-! ### Operations -/

/-- A type has the name of a declaration and stands in its namespace. -/
structure Headed (env : Environment) (s : State) (node : NodeId) (shape : TypeShape) : Prop where
  name : shape.name? = env.tree.declaredName? node
  parent : shape.parentNamespace? = s.parentNamespaceType? node

include hwf hcheck in
/-- An operation is added to the table when its parts have been worked out, and only one outside
interfaces may then be recorded. -/
theorem buildOperation_cases {node : NodeId} {parts : OperationNode} {interface : Option TypeId}
    {t : TypeId} (hkind : env.tree.kind? node = some (.operationStatement parts))
    (hnode : env.tree.templateDeclarationOf? node = template)
    (hiface : ∀ i ∈ interface, i ∈ known)
    (h : buildOperation check node parts interface env s = some (t, s')) :
    ∃ s₁ s₂ operation, operation.interface = interface ∧
      Headed env s₁ node (.operation operation) ∧
      Leads env check template own floor s known s₁ (fun k =>
        (TypeShape.operation operation).links ⊆ k ∧
          Founded s₁ k own ⟨some node, .operation operation⟩) ∧
      t = s₁.types.nextId ∧
      Finished ((s₁.addRow ⟨some node, .operation operation⟩).shouldFinish env.tree node) t
        (s₁.addRow ⟨some node, .operation operation⟩) s₂ ∧
      (s' = s₂ ∧ (template = none → interface ≠ none) ∨
        interface = none ∧ recordOperation node parts.name t env s₂ = some ((), s')) := by
  have hin : ∀ n ∈ (operationStatement parts).children,
      env.tree.templateDeclarationOf? n = template := fun n hn =>
    inside_child hwf hkind rfl hn hnode
  simp only [buildOperation, get_bind] at h
  obtain ⟨parameters, s₁, hparams, h⟩ := run_bind.mp h
  obtain ⟨returns, s₂, hreturns, h⟩ := run_bind.mp h
  obtain ⟨decorators, s₃, hdecs, h⟩ := run_bind.mp h
  simp only [addType_bind, shouldFinish_bind] at h
  have heval : ∀ known, Leads env check template own floor s₂ known s₃
      (decoratorTypes decorators ⊆ ·) := fun _ => checkDecorators_leads hwf hnode hdecs
  have hlater : Frame own s₁ s₃ :=
    ((hcheck.frame hreturns).mono own).trans ((heval []).frame hcheck)
  have hframe : Frame own s s₃ := ((hcheck.frame hparams).mono own).trans hlater
  have hmodel : ∃ m, s₃.types.shape? parameters = some (.model m) := by
    obtain ⟨members, hexpr⟩ := hwf.operation_parameters hkind
    obtain ⟨m, hm⟩ := hcheck.expression hexpr hparams
    obtain ⟨m', hm', -⟩ := hlater.grows.model (model?_eq_some_iff.mpr hm)
    exact ⟨m', model?_eq_some_iff.mp hm'⟩
  let operation : OperationType :=
    ⟨parts.name, s.parentNamespaceType? node, interface, parameters, returns, decorators⟩
  have hheaded : Headed env s₃ node (.operation operation) :=
    ⟨by simp [operation, TypeShape.name?, Tree.declaredName?, hkind, declaredName?],
      (hframe.parentNamespaceType node).symm⟩
  have hbuilt : Leads env check template own floor s known s₃ fun k =>
      (TypeShape.operation operation).links ⊆ k ∧
        Founded s₃ k own ⟨some node, .operation operation⟩ := by
    refine (Leads.call (hin _ (by simp)) hparams).bind fun known₁ hsub₁ hknown₁ => ?_
    refine (Leads.call (hin _ (by simp)) hreturns).bind fun known₂ hsub₂ hknown₂ => ?_
    refine (heval known₂).bind fun known₃ hsub₃ hknown₃ => .done ⟨?_, ?_⟩
    · intro id hid
      simp only [TypeShape.links, mem_cons, mem_toList] at hid
      rcases hid with rfl | rfl | hid
      · exact hsub₃ (hsub₂ hknown₁)
      · exact hsub₃ hknown₂
      · exact hsub₃ (hsub₂ (hsub₁ (hiface id hid)))
    · refine .operation (fun id hid => ?_) hknown₃ hmodel
      have hpar : s₃.parentNamespaceType? node = some id :=
        (hframe.parentNamespaceType node).trans hid
      exact State.supplies_of_parent hpar
  split at h
  next hready =>
    obtain ⟨_, s₄, hfinish, h⟩ := run_bind.mp h
    have hfin : Finished _ _ _ s₄ := Or.inr ⟨hready, finishType_decorated hfinish⟩
    split at h
    next hnone =>
      obtain ⟨_, hrec, rfl⟩ := run_bind_pure.mp h
      exact ⟨s₃, s₄, _, rfl, hheaded, hbuilt, rfl, hfin,
        Or.inr ⟨isNone_iff_eq_none.mp hnone, hrec⟩⟩
    next hsome =>
      obtain ⟨rfl, rfl⟩ := run_pure.mp h
      exact ⟨s₃, _, _, rfl, hheaded, hbuilt, rfl, hfin,
        Or.inl ⟨rfl, fun _ heq => hsome (isNone_iff_eq_none.mpr heq)⟩⟩
  next hopen =>
    obtain ⟨rfl, rfl⟩ := run_pure.mp h
    refine ⟨s₃, _, _, rfl, hheaded, hbuilt, rfl, Or.inl rfl,
      Or.inl ⟨rfl, fun hnone => absurd ?_ hopen⟩⟩
    rw [State.shouldFinish, hnode, hnone]

include hwf hcheck in
/-- An operation of an interface becomes known under its name. -/
theorem checkMemberOperation_leads {parts : OperationNode}
    (hkind : env.tree.kind? node = some (.operationStatement parts))
    (hnode : env.tree.templateDeclarationOf? node = template) (hfloor : floor ≤ s.types.size)
    (hiface : interface ∈ known) :
    Works env check template own floor s known (checkOperation check node parts (some interface))
      fun t s' k => t ∈ k ∧ ∃ o, s'.types.operation? t = some o ∧ o.name = parts.name ∧
        o.interface = some interface := fun t s' h => by
  obtain ⟨s₁, s₂, operation, hmember, hheaded, hleads, rfl, hfin, ⟨rfl, -⟩ | ⟨hnone, -⟩⟩ :=
    @buildOperation_cases _ _ _ own floor _ _ _ hwf hcheck _ _ _ _ hkind hnode
      (fun i hi => some.inj hi ▸ hiface) h
  · have hadded : Frame own s₁ (s₁.addRow ⟨some node, .operation operation⟩) := .addRow (by simp)
    have hfloor₁ := Nat.le_trans (hleads.floor_le hcheck hfloor) hadded.grows.size_le
    refine hleads.bind fun known₁ _ hfounded => (Leads.push (some node) rfl
      (.of_isDeclared (by rw [TypeShape.isDeclared, hmember]; rfl)) hfounded.1 hfounded.2 hfin
      (Underway.judge hnode hfloor₁).ready).bind fun known₂ _ hmem => .done ⟨hmem, operation, ?_, ?_, hmember⟩
    · rw [hfin.types, operation?_eq_some_iff]
      exact shape?_push_nextId _
    · simpa [TypeShape.name?, Tree.declaredName?, hkind, declaredName?] using hheaded.name
  · simp at hnone

/-! ### Interfaces -/

/-- So does a copy for another interface. -/
theorem copyOperation_leads (hway : Underway floor template finish s)
    (hiface : interface ∈ known) (hsource : source ∈ known) :
    Works env check template own floor s known (copyOperation interface finish source)
      fun t s' k => t ∈ k ∧ (s.types.operation? source = none → s' = s ∧ t = source) ∧
        ∀ o, s.types.operation? source = some o →
          s'.types.operation? t = some { o with interface := some interface } := by
  refine .getTypes_bind ?_
  split
  next hnone =>
    exact .pure ⟨hsource, fun _ => ⟨rfl, rfl⟩, by simp [hnone]⟩
  next operation hop =>
    have hadded : Frame own s (s.addRow ⟨s.types.node? source,
        .operation { operation with interface := some interface }⟩) := .addRow (by simp)
    refine .lookAll hsource (operation?_eq_some_iff.mp hop) fun hsub hlinks => ?_
    refine .getTypes_bind (Works.imp (.complete _ rfl (.of_isDeclared rfl) ?_
      (.copyOperation hop) (hway.frame hadded).ready) fun _ ht =>
        ⟨ht.1, by simp [hop], fun o ho => ?_⟩)
    · intro id hid
      simp only [links, mem_cons, mem_toList] at hid
      rcases hid with rfl | rfl | hid
      · exact hlinks (by simp [links])
      · exact hlinks (by simp [links])
      · exact some.inj hid ▸ hsub hiface
    · obtain rfl := mem_unique hop ho
      exact operation?_eq_some_iff.mpr ht.2

/-- Operations stay known under their names. -/
theorem Equips.mono {types' : TypeTable} {known' : List TypeId}
    (h : types.Equips known interface operations) (hgrows : types.Grows types')
    (hsub : known ⊆ known') :
    types'.Equips known' interface operations := by
  intro entry hentry
  obtain ⟨hmem, o, ho, hname, hiface⟩ := h entry hentry
  exact ⟨hsub hmem, o, hgrows.operation ho, hname, hiface⟩

/-- An operation may be added under its name. -/
theorem Equips.insert {name : String} {id : TypeId}
    (h : types.Equips known interface operations) (hid : id ∈ known)
    (ho : ∃ o, types.operation? id = some o ∧ o.name = name ∧ o.interface = some interface) :
    types.Equips known interface (operations.insert name id) := by
  intro entry hentry
  rcases find?_insert_cases (find?_eq_some_iff.mpr hentry) with ⟨hname, heq⟩ | hfind
  · rw [hname, heq]
    exact ⟨hid, ho⟩
  · exact h entry (find?_eq_some_iff.mp hfind)

include hcheck in
/-- The operations of a mixin are copied one by one. -/
theorem mixOperation_leads {mixin : NodeId}
    (hway : Underway floor template finish s) (hiface : interface ∈ known)
    (hsource : source ∈ known) (hoperations : s.types.Equips known interface operations) :
    Works env check template own floor s known (mixOperation interface finish mixin operations source)
      fun answer s' k => s'.types.Equips k interface answer := by
  refine .bind (copyOperation_leads hway hiface hsource) fun hwork ⟨hmem, hpassed, hcopied⟩ =>
    .getTypes_bind ?_
  have hold := Equips.mono hoperations (hwork.frame hcheck).grows hwork.known_subset
  split
  · exact .pure hold
  next operation hop =>
    have hinserted := Equips.insert hold hmem ⟨operation, hop, rfl, ?_⟩
    · split
      · exact .report_bind fun hquiet => .pure (hquiet.types ▸ hinserted)
      · exact .pure hinserted
    · cases ho : s.types.operation? source with
      | none =>
        obtain ⟨rfl, rfl⟩ := hpassed ho
        simp [ho] at hop
      | some o =>
        rw [hcopied o ho, some.injEq] at hop
        rw [← hop]

include hcheck in
/-- A mixin adds its operations. -/
theorem checkMixin_leads {mixin : NodeId}
    (hway : Underway floor template finish s) (hiface : interface ∈ known)
    (hmixin : env.tree.templateDeclarationOf? mixin = template)
    (hoperations : s.types.Equips known interface operations) :
    Works env check template own floor s known (checkMixin check interface finish operations mixin)
      fun answer s' k => s'.types.Equips k interface answer := by
  refine .bind (.call hmixin) fun hwork htype => .getTypes_bind ?_
  have hold := Equips.mono hoperations (hwork.frame hcheck).grows hwork.known_subset
  split
  · split
    · exact .report_bind fun hquiet => .pure (hquiet.types ▸ hold)
    · exact .pure hold
  next mixed hmixed =>
    refine .lookAll htype (interface?_eq_some_iff.mp hmixed) fun hsub hlinks => ?_
    refine .foldlM (Q := fun (ops : OrderedMap String TypeId) s k => s.types.Equips k interface ops)
      (fun x hx _ _ _ hmore hops => mixOperation_leads hcheck
        (hway.frame ((hwork.frame hcheck).trans (hmore.frame hcheck)))
        (hmore.known_subset (hsub (hwork.known_subset hiface)))
        (hmore.known_subset (hlinks (by simp [links, hx]))) hops)
      (Equips.mono hold (.refl _) hsub)

include hwf hcheck in
/-- So do the members of an interface. -/
theorem checkOwnOperations_leads {members : List NodeId} {seen : List String} (hfloor : floor ≤ s.types.size)
    (hiface : interface ∈ known)
    (hmems : ∀ n ∈ members, env.tree.templateDeclarationOf? n = template)
    (hoperations : s.types.Equips known interface operations) :
    Works env check template own floor s known
      (checkOwnOperations check interface members seen operations)
      fun answer s' k => s'.types.Equips k interface answer := by
  induction members generalizing s known seen operations with
  | nil => exact .pure hoperations
  | cons member members ih =>
    obtain ⟨hmember, hrest⟩ := forall_mem_cons.mp hmems
    refine .getTree_bind ?_
    split
    next parts hkind =>
      split
      · exact .report_bind fun hquiet => ih (hquiet.types ▸ hfloor) hiface hrest
          (hquiet.types ▸ hoperations)
      · refine .bind (checkMemberOperation_leads hwf hcheck hkind hmember hfloor hiface)
          fun hwork ⟨hmem, hadded⟩ => ?_
        have hgrows := (hwork.frame hcheck).grows
        exact ih (Nat.le_trans hfloor hgrows.size_le) (hwork.known_subset hiface) hrest
          (Equips.insert (Equips.mono hoperations hgrows hwork.known_subset) hmem hadded)
    · exact ih hfloor hiface hrest hoperations

/-- An interface that has no operations yet. -/
def Unequipped (s : State) (interface : TypeId) : Prop :=
  ∃ i, s.types.shape? interface = some (.interfaceType i) ∧ i.operations = .empty

/-- Other checks add no operations. -/
theorem Unequipped.frame (h : Unequipped s interface)
    (hframe : Frame none s s') : Unequipped s' interface := by
  obtain ⟨i, hi, hempty⟩ := h
  exact ⟨i, hframe.shape (by simp) hi rfl, hempty⟩

/-- Nor do decorators. -/
theorem Unequipped.decorate (h : Unequipped s interface)
    (decorators : List DecoratorApplication) :
    Unequipped (s.modifyTypes fun types =>
      types.modifyInterface interface fun i => { i with decorators }) interface := by
  obtain ⟨i, hi, hempty⟩ := h
  refine ⟨{ i with decorators }, ?_, hempty⟩
  change (s.types.modifyShape interface _).shape? interface = _
  rw [shape?_modifyShape, if_pos rfl, hi]
  rfl

/-- An interface may get decorators whose types are attached. -/
theorem decorateInterface_leads (hown : own = some type) {decorators : List DecoratorApplication}
    (hattaches : s.types.Attaches known decorators) :
    Leads env check template own floor s known
      (s.modifyTypes fun types => types.modifyInterface type fun i => { i with decorators })
      fun _ => True := by
  refine .step (.amend hown fun {shape} _ => ?_) trivial
  cases shape with
  | interfaceType i => exact .interfaceDecorators hattaches
  | _ => exact .same _

/-- An interface without operations may get them. -/
theorem equipInterface_leads (hown : own = some type) (h : Unequipped s type)
    (hoperations : s.types.Equips known type operations) :
    Leads env check template own floor s known
      (s.modifyTypes fun types => types.modifyInterface type fun i => { i with operations })
      fun _ => True := by
  obtain ⟨i, hi, hempty⟩ := h
  refine .step (.amend hown fun {shape} hshape => ?_) trivial
  rw [hi, some.injEq] at hshape
  subst hshape
  exact .operations hempty hoperations

include hwf hcheck in
/-- An interface is completed. -/
theorem buildInterface_completes {parts : InterfaceNode} {u : Unit} (htype : type ∈ known)
    (hkind : env.tree.kind? node = some (.interfaceStatement parts))
    (hnode : env.tree.templateDeclarationOf? node = template) (hfloor : floor ≤ s.types.size)
    (hunequipped : Unequipped s type)
    (h : buildInterface check node parts type env s = some (u, s')) :
    ∃ s₁, Completes env check template type floor s s₁ s' known := by
  have hin : ∀ n ∈ (interfaceStatement parts).children,
      env.tree.templateDeclarationOf? n = template := fun n hn =>
    inside_child hwf hkind rfl hn hnode
  simp only [buildInterface, shouldFinish_bind] at h
  obtain ⟨mixed, s₁, hmixins, h⟩ := run_bind.mp h
  obtain ⟨decorators, s₂, hdecs, h⟩ := run_bind.mp h
  simp only [modify_bind] at h
  obtain ⟨operations, s₃, hoperations, h⟩ := run_bind.mp h
  simp only [modify_bind] at h
  have hway : Underway floor template (s.shouldFinish env.tree node) s := .judge hnode hfloor
  have hmixed : ∀ own, Leads env check template own floor s known s₁
      (s₁.types.Equips · type mixed) := fun own =>
    Works.foldlM (Q := fun (ops : OrderedMap String TypeId) s k => s.types.Equips k type ops)
      (fun n hn _ _ _ hwork hops => checkMixin_leads hcheck (hway.frame (hwork.frame hcheck))
        (hwork.known_subset htype) (hin n (by simp [hn])) hops)
      (fun entry hentry => by simp [empty] at hentry) hmixins
  have hdec : ∀ known own, Leads env check template own floor s₁ known s₂
      (decoratorTypes decorators ⊆ ·) :=
    fun known own => checkDecorators_leads hwf hnode hdecs
  have hfirst := (hunequipped.frame ((hmixed none).frame hcheck)).frame
    ((hdec [] none).frame hcheck)
  have hfilled : Leads env check template (some type) floor s known
      (s₃.modifyTypes fun types => types.modifyInterface type fun i => { i with operations })
      fun _ => True := by
    refine (hmixed _).bind fun known₁ hsub₁ hmixed₁ => ?_
    refine (hdec known₁ _).bind fun known₂ hsub₂ hknown => ?_
    have hsigned : Leads env check template (some type) floor s₂ known₂ _ fun _ => True :=
      decorateInterface_leads rfl fun id hid => .inl (hknown hid)
    have hgrows := (((hdec known₁ (some type)).frame hcheck).trans
      (hsigned.frame hcheck)).grows
    have hway₂ := hsigned.underway hcheck ((hdec known₁ (some type)).underway hcheck
      ((hmixed none).underway hcheck hway))
    refine hsigned.bind fun known₃ hsub₃ _ => ?_
    have hown₃ : ∀ own, Leads env check template own floor _ known₃ s₃
        (s₃.types.Equips · type operations) :=
      fun own => checkOwnOperations_leads hwf hcheck hway₂.floor_le
        (hsub₃ (hsub₂ (hsub₁ htype))) (fun n hn => hin n (by simp [hn]))
        (Equips.mono hmixed₁ hgrows (List.Subset.trans hsub₂ hsub₃)) hoperations
    exact (hown₃ _).bind fun known₄ hsub₄ hequips => equipInterface_leads rfl
      ((hfirst.decorate decorators).frame ((hown₃ none).frame hcheck)) hequips
  exact ⟨_, hfilled, _, finishIf_finished h, (hfilled.underway hcheck hway).ready⟩

/-! ### Enums -/

/-- The value of a member is a check or nothing. -/
theorem checkEnumValue_cases {answer : Option EnumValue}
    (h : checkEnumValue check place env s = some (answer, s')) :
    s' = s ∨ ∃ n t, n ∈ place ∧ check n env s = some (t, s') := by
  cases place with
  | none => exact .inl (run_pure.mp h).2
  | some n =>
    obtain ⟨t, s₁, hrun, h⟩ := run_bind.mp h
    simp only [getTypes_bind, run_pure] at h
    obtain ⟨-, rfl⟩ := h
    exact .inr ⟨n, t, rfl, hrun⟩

/-- So it is made of steps. -/
theorem checkEnumValue_leads {place : Option NodeId}
    (hplace : ∀ n ∈ place, env.tree.templateDeclarationOf? n = template) :
    Works env check template own floor s known (checkEnumValue check place) fun _ _ _ => True := by
  cases place with
  | none => exact .pure trivial
  | some n => exact .bind (.call (hplace n rfl)) fun _ _ => .getTypes_bind (.pure trivial)

include hwf in
/-- A member of an enum becomes known. -/
theorem checkEnumMember_leads {parts : EnumMemberNode} (hown : own = some enumType)
    (henum : enumType ∈ known) (hkind : env.tree.kind? node = some (.enumMember parts))
    (houtside : template = none) (hnode : env.tree.templateDeclarationOf? node = template) :
    Works env check template own floor s known (checkEnumMember check enumType node parts)
      fun t _ k => t ∈ k := by
  refine .bind (checkEnumValue_leads fun n hn => inside_child hwf hkind rfl
    (by simp_all) hnode) fun hwork₁ _ => ?_
  refine .bind (checkDecorators_leads hwf hnode) fun hwork₂ hknown => ?_
  exact Works.imp (@Works.complete _ env check template own floor _ _ true _ rfl
    (.of_isDeclared rfl) (nil_subset _)
    (.enumMember hown (hwork₂.known_subset (hwork₁.known_subset henum)) hknown)
    fun _ => .outside houtside) fun _ ht => ht.1

include hwf hcheck in
/-- A member leaves its enum alone. -/
theorem checkEnumMember_frame {parts : EnumMemberNode}
    (h : checkEnumMember check enumType node parts env s = some (t, s')) : Frame own s s' := by
  obtain ⟨value, s₁, hvalue, h⟩ := run_bind.mp h
  obtain ⟨decorators, s₂, hdecs, h⟩ := run_bind.mp h
  simp only [addType_bind] at h
  obtain ⟨_, hfinish, rfl⟩ := run_bind_pure.mp h
  have heval : Frame own s s₁ := by
    rcases checkEnumValue_cases hvalue with rfl | ⟨n, u, -, hrun⟩
    · exact .refl _ _
    · exact (hcheck.frame hrun).mono own
  have hdec : Leads env check _ own 0 s₁ [] s₂ _ := checkDecorators_leads hwf rfl hdecs
  exact (heval.trans (hdec.frame hcheck)).trans (Frame.trans (.addRow (by simp))
    (.ofDecorated (finishType_decorated hfinish)))

include hwf in
/-- All members of an enum become known. -/
theorem checkEnumMembers_leads {members : List NodeId} {seen : List String}
    (hown : own = some enumType) (henum : enumType ∈ known) (houtside : template = none)
    (hmems : ∀ n ∈ members, env.tree.templateDeclarationOf? n = template) :
    Works env check template own floor s known (checkEnumMembers check enumType members seen)
      fun answer _ k => answer ⊆ k := by
  induction members generalizing s known seen with
  | nil => exact .pure (nil_subset _)
  | cons member members ih =>
    obtain ⟨hmember, hrest⟩ := forall_mem_cons.mp hmems
    refine .getTree_bind ?_
    split
    next parts hkind =>
      split
      · exact .report_bind fun _ => ih henum hrest
      · refine .bind (checkEnumMember_leads hwf hown henum hkind houtside hmember)
          fun hwork₁ hmem => ?_
        refine .bind (ih (hwork₁.known_subset henum) hrest) fun hwork₂ hsubset => .pure ?_
        exact cons_subset.mpr ⟨hwork₂.known_subset hmem, hsubset⟩
    · exact ih henum hrest

include hwf hcheck in
/-- The members of an enum are new types; the enum itself is not changed while they are checked. -/
theorem checkEnumMembers_frame {members : List NodeId} {answer : List TypeId}
    (h : checkEnumMembers check enumType members seen env s = some (answer, s')) :
    Frame own s s' := by
  induction members generalizing s seen answer with
  | nil =>
    obtain ⟨-, rfl⟩ := run_pure.mp h
    exact .refl _ _
  | cons member members ih =>
    simp only [checkEnumMembers, getTree_bind] at h
    replace h := run_chosen h
    split at h
    · split at h
      · obtain ⟨_, s₁, hreport, h⟩ := run_bind.mp h
        exact (Frame.ofQuiet (report_quiet hreport)).trans (ih h)
      · obtain ⟨t, s₁, ht, h⟩ := run_bind.mp h
        obtain ⟨ts, hts, -⟩ := run_bind_pure.mp h
        exact (checkEnumMember_frame hwf hcheck ht).trans (ih hts)
    · exact ih h

/-- An enum without members may get them. -/
theorem enlistMembers_leads {members : List TypeId} (hown : own = some type)
    (h : ∃ e, s.types.shape? type = some (.enumType e) ∧ e.members = [])
    (hmems : members ⊆ known) :
    Leads env check template own floor s known
      (s.modifyTypes fun types => types.modifyEnum type fun e => { e with members })
      fun _ => True := by
  obtain ⟨e, he, hempty⟩ := h
  refine .step (.amend hown fun {shape} hshape => ?_) trivial
  rw [he, some.injEq] at hshape
  subst hshape
  exact .members hempty hmems

include hwf in
/-- A member that is asked for is found in its enum. -/
theorem checkEnumMemberNode_leads {parts : EnumMemberNode}
    (hkind : env.tree.kind? node = some (.enumMember parts))
    (hnode : env.tree.templateDeclarationOf? node = template) :
    Works env check template own floor s known (checkEnumMemberNode check node)
      fun t _ k => t ∈ k := by
  refine .getTree_bind ?_
  split
  · exact .error
  next parent hpar =>
    have hin : env.tree.templateDeclarationOf? parent = template := by
      rw [← hnode, hwf.templateDeclarationOf_parent hpar (Tree.templateParameters_of_kind hkind)]
    refine .bind (.call hin) fun {enumType s₁ _} _ hknown => .getTypes_bind ?_
    cases henum : s₁.types.enum? enumType with
    | none => exact .error
    | some e =>
      simp only [map_some, getD_some]
      cases hfind : e.members.find? fun id => s₁.types.node? id = some node with
      | none => exact .error
      | some id =>
        exact .lookAll hknown (enum?_eq_some_iff.mp henum) fun _ hlinks =>
          .pure (hlinks (mem_of_find?_eq_some hfind))

end ApiSchema.Checking
