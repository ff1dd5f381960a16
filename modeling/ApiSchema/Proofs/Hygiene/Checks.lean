import ApiSchema.Proofs.Hygiene.References

/-!
# Checks keep an open parameter to its template

Every step of a check keeps the invariant, if the nodes of the computation are apart from the
tracked parameter or else nothing is promised of the types it gets hold of. So does the check of a
node as a whole, by induction on the depth to which checks are nested.
-/

namespace ApiSchema.Checking

open TypeTable State Table ModelType List Option

variable {env : Environment} {check : Check} {final : TypeTable} {parameter node : NodeId}
  {good good' good₀ : TypeId → Prop} {s s' s₁ s₂ s₀ s₃ : State} {t target : TypeId}
  {template : Option NodeId} {own : Option TypeId} {floor : Nat} {q : Prop} {m m' : Moment}
  {known key marks : List TypeId} {applications : List DecoratorApplication} {instantiating : Bool}
  {stub shape : TypeShape} {statements members : List NodeId} {P : List TypeId → Prop}

/-- A computation that keeps the invariant. If the condition holds, which says that its nodes are
apart from the parameter, what it knows is good. What it has under construction is good only for
this reason or because it turns out not to reach the parameter. -/
structure Tracked (env : Environment) (final : TypeTable) (parameter : NodeId)
    (template : Option NodeId) (own : Option TypeId) (floor : Nat) (q : Prop) (good : TypeId → Prop)
    (m : Moment) : Prop where
  hygienic : Hygienic env final parameter good m.state
  situated : Situated env m.state
  floor {i : Instantiation} : m.state.context = some i → ∀ a ∈ i.arguments, a.index < floor
  apart : q ↔ Apart env parameter good m.state template
  known {id : TypeId} : id ∈ m.known → m.state.types.Has id ∧ (q → good id)
  own {id : TypeId} : own = some id →
    m.state.types.Has id ∧ (good id → q ∨ IsClear final parameter id)

/-- What stays of a computation when other types are added or changed. -/
theorem Tracked.extend (h : Tracked env final parameter template own floor q good m)
    (hframe : Frame own m.state m'.state) (hagrees : Agrees m.state good good')
    (hygienic : Hygienic env final parameter good' m'.state)
    (hknown : ∀ id ∈ m'.known, id ∈ m.known ∨ m'.state.types.Has id ∧ (q → good' id)) :
    Tracked env final parameter template own floor q good' m' where
  hygienic := hygienic
  situated := h.situated.mono hframe.context hframe.grows
  floor hi := h.floor (hframe.context ▸ hi)
  apart := h.apart.trans (Apart.congr hagrees h.situated hframe.context).symm
  known := fun {id} hid => by
    rcases hknown id hid with hold | hnew
    · obtain ⟨hhas, hgood⟩ := h.known hold
      exact ⟨hframe.grows.has hhas, fun hq => (hagrees hhas).mpr (hgood hq)⟩
    · exact hnew
  own hown := by
    obtain ⟨hhas, hgood⟩ := h.own hown
    exact ⟨hframe.grows.has hhas, fun hg => hgood ((hagrees hhas).mp hg)⟩

theorem forall_mem_cons_or {new : TypeId} {P : TypeId → Prop} (h : P new) :
    ∀ id ∈ new :: known, id ∈ known ∨ P id := by
  intro id hid
  rcases mem_cons.mp hid with rfl | hid
  · exact .inr h
  · exact .inl hid

/-- Decorators are run on good types, or in an instance with an argument whose faults were not
seen. -/
theorem Tracked.decorated (h : Tracked env final parameter template own floor q good ⟨s, known⟩)
    (hdec : Decorated target applications s s') (htarget : target ∈ known)
    (hready : Ready floor template s) : Hygienic env final parameter good s' := by
  refine h.hygienic.decorated hdec (h.known htarget).1 ?_
  by_cases hq : q
  · exact .inl ((h.known htarget).2 hq)
  · obtain ⟨declaration, hnot⟩ := not_forall.mp (mt h.apart.mpr hq)
    obtain ⟨hdecn, hnot⟩ := Classical.not_imp.mp hnot
    obtain ⟨arguments, types, hctx, hfloor, hgrows, hclosed⟩ := hready declaration hdecn
    refine .inr ⟨_, hctx, fun a ha => ?_, ?_⟩
    · have hhas : types.Has a :=
        has_iff.mpr (Nat.lt_of_lt_of_le (h.floor hctx a ha) hfloor)
      exact ⟨hgrows.has hhas, isOpen_of_grows hgrows h.hygienic.descending hhas (hclosed a ha)⟩
    · by_contra hall
      exact hnot (.inl ⟨arguments, hctx, fun a ha => by_contra fun hbad => hall ⟨a, ha, hbad⟩⟩)

theorem Tracked.finished {finish : Bool}
    (h : Tracked env final parameter template own floor q good ⟨s, known⟩)
    (hfin : Finished finish target s s') (htarget : target ∈ known)
    (hready : finish = true → Ready floor template s) :
    Tracked env final parameter template own floor q good ⟨s', known⟩ := by
  rcases hfin with rfl | ⟨hfinish, hdec⟩
  · exact h
  · exact h.extend (.ofDecorated hdec) .refl
      (h.decorated hdec htarget (hready hfinish)) fun _ => .inl

/-- A type that is made of known types is known. -/
theorem Tracked.push (node : Option NodeId)
    (h : Tracked env final parameter template own floor q good ⟨s, known⟩)
    (hplain : shape.isPlain = true) (hlinks : shape.links ⊆ known)
    (hgrows : (s.addRow ⟨node, shape⟩).types.Grows final) :
    ∃ good', Agrees s good good' ∧ Tracked env final parameter template own floor q good'
      ⟨s.addRow ⟨node, shape⟩, s.types.nextId :: known⟩ := by
  have hnot : shape ≠ .templateParameter := by cases shape <;> simp_all
  obtain ⟨good', hagrees, h', hgood⟩ := h.hygienic.push ⟨node, shape⟩ hgrows hnot
    (fun id hid => h.known (hlinks hid))
    (by cases shape <;> simp_all)
  exact ⟨good', hagrees, h.extend (.addRow hnot) hagrees h'
    (forall_mem_cons_or ⟨⟨_, get?_push_nextId _ _⟩, fun hq => hgood.mpr (.inl hq)⟩)⟩

/-- A computation begins. -/
theorem Tracked.start (h : Hygienic env final parameter good s) (hs : Situated env s) :
    Tracked env final parameter template none s.types.size (Apart env parameter good s template)
      good ⟨s, []⟩ where
  hygienic := h
  situated := hs
  floor hi a ha := has_iff.mp (hs.known hi a ha)
  apart := Iff.rfl
  known := by simp
  own := by simp

/-- A computation goes on with a new type under construction. -/
theorem Tracked.construct (h : Hygienic env final parameter good s) (hs₀ : Situated env s₀)
    (hs : Situated env s) (hctx : s.context = s₀.context) (hagrees : Agrees s₀ good₀ good)
    (ht : s.types.Has t) (hknown : known ⊆ [t]) (hfloor : s₀.types.size ≤ floor)
    (hgood : good t ↔ Apart env parameter good₀ s₀ template ∨ IsClear final parameter t) :
    Tracked env final parameter template (some t) floor (Apart env parameter good₀ s₀ template)
      good ⟨s, known⟩ where
  hygienic := h
  situated := hs
  floor hi a ha := Nat.lt_of_lt_of_le (has_iff.mp (hs₀.known (hctx ▸ hi) a ha)) hfloor
  apart := (Apart.congr hagrees hs₀ hctx).symm
  known := fun {id} hid => by
    obtain rfl := mem_singleton.mp (hknown hid)
    exact ⟨ht, fun hq => hgood.mpr (.inl hq)⟩
  own := fun {id} hid => by
    cases hid
    exact ⟨ht, hgood.mp⟩

/-- A model or an interface is recorded. -/
theorem Closed.hygienic {kind : NodeKind} {isTemplate : Bool}
    (hclosed : Closed env.tree node key t isTemplate instantiating s s')
    (h : Hygienic env final parameter good s) (hkind : env.tree.kind? node = some kind)
    (hother : kind.symbolKind? ≠ some .namespaceKind) (hkey : Keyed s good key t)
    (hdecl : instantiating = false → parameter ∉ env.tree.templateParameters node → good t) :
    Hygienic env final parameter good s' := by
  cases hclosed with
  | instantiated => exact h.erasePending _
  | declared heq =>
    have hrec : Hygienic env final parameter good
        (s.declare (s.bindings.symbolOf? node) t t isTemplate key) :=
      h.declare hkind hother hkey.1 (fun _ _ => hdecl rfl) fun _ => hkey
    exact (hrec.filled (heq ▸ enlist_filled _ _ _ _)).erasePending _

/-- A model or an interface is entered as good under the condition under which its key is. -/
theorem Built.opened
    (hbuilt : Built env check node s.types.nextId stub marks (s.opened node key stub marks) s')
    (h : Hygienic env final parameter good s)
    (horigin : stub.origin? = some (if instantiating then key else [], template))
    (hgrows : (s.opened node key stub marks).types.Grows final) (hhas : ∀ a ∈ key, s.types.Has a)
    (hkey : (∀ a ∈ key, good a) ↔ q) :
    ∃ good', Agrees s good good' ∧
      Hygienic env final parameter good' (s.opened node key stub marks) ∧
      (good' s.types.nextId ↔ q ∨ IsClear final parameter s.types.nextId) := by
  have hpushed : s.types.Grows (s.opened node key stub marks).types := .push _ _
  -- The stub refers to the arguments of the instance, or to nothing.
  have hstub : ∀ a ∈ stub.links, s.types.Has a ∧ (q → good a) := by
    intro a ha
    rw [hbuilt.links_eq horigin] at ha
    split at ha
    · exact ⟨hhas a ha, fun hq => hkey.mpr hq a ha⟩
    · simp at ha
  have hinstance : ∀ {arguments : List TypeId} {node : Option NodeId},
      stub.origin? = some (arguments, node) → arguments ≠ [] → (∀ a ∈ arguments, good a) → q := by
    intro arguments node ho hne hall
    rw [horigin, some.injEq, Prod.mk.injEq] at ho
    obtain ⟨rfl, -⟩ := ho
    split at hall
    · exact hkey.mp hall
    next hinst =>
      simp [hinst] at hne
  obtain ⟨good', hagrees, h', hgood⟩ :=
    h.push ⟨some node, stub⟩ hgrows (by cases hbuilt <;> simp) hstub hinstance
  have hopened := h'.addPending node ⟨⟨_, get?_push_nextId _ _⟩, fun a ha => hpushed.has (hhas a ha),
    fun hall => hgood.mpr (.inl (hkey.mp ((hagrees.all hhas).mp hall)))⟩
  exact ⟨good', hagrees, { hopened with }, hgood⟩

/-- What is known of a declaration is good if the declaration is apart from the parameter. -/
theorem known_yields (h : Hygienic env final parameter good s)
    (houtside : s.isInstantiating node = false ∨ env.tree.templateParameters node = [])
    (hknown : s.declaredTypeOfNode? node = some t) :
    Yields env final parameter good s s t
      (Apart env parameter good s (env.tree.templateDeclarationOf? node)) := by
  obtain ⟨symbol, hsym, hdecl⟩ := bind_eq_some_iff.mp hknown
  obtain ⟨hhas, hgood⟩ := h.declared hdecl
  refine ⟨good, .refl, h, hhas, fun hapart => hgood node hsym ?_⟩
  by_cases hparams : env.tree.templateParameters node = []
  · simp [hparams]
  · rw [Tree.WellFormed.templateDeclarationOf_self hparams] at hapart
    rcases hapart node rfl with ⟨arguments, hctx, -⟩ | ⟨-, hnot⟩
    · have hnot := houtside.resolve_right hparams
      simp [isInstantiating, hctx] at hnot
    · exact hnot

/-- Literals are good. -/
theorem checkLiteral_yields {literal : Literal} (h : Hygienic env final parameter good s)
    (hgrows : s'.types.Grows final) (hrun : checkLiteral node literal env s = some (t, s')) :
    Yields env final parameter good s s' t q := by
  rcases checkLiteral_cases hrun with ⟨rfl, hknown⟩ | ⟨-, rfl, rfl⟩
  · obtain ⟨hhas, hgood⟩ := h.literals hknown
    exact ⟨good, .refl, h, hhas, fun _ => hgood⟩
  · have hlinks : literal.shape.links = [] := by cases literal <;> rfl
    have hadded : (s.addRow ⟨some node, literal.shape⟩).types.Grows final := hgrows
    obtain ⟨good', hagrees, h', hgood⟩ := h.push (q := True) ⟨some node, literal.shape⟩ hadded
      (by cases literal <;> simp) (by simp [hlinks]) (fun _ _ _ => trivial)
    have ht : (s.addRow ⟨some node, literal.shape⟩).types.Has s.types.nextId ∧
        good' s.types.nextId := ⟨⟨_, get?_push_nextId _ _⟩, hgood.mpr (.inl trivial)⟩
    refine ⟨good', hagrees, { h' with literals := fun {l u} hl => ?_ }, ht.1, fun _ => ht.2⟩
    rcases OrderedMap.find?_insert_cases hl with ⟨-, rfl⟩ | hl
    · exact ht
    · exact h'.literals hl

/-- Intrinsic types are good. -/
theorem intrinsic_yields {name : String} (h : Hygienic env final parameter good s)
    (hkind : env.tree.kind? node = some (.intrinsicStatement name))
    (hgrows : (s.addRow ⟨some node, .intrinsic name⟩).types.Grows final) :
    Yields env final parameter good s (s.entered node (.intrinsic name)) s.types.nextId q := by
  obtain ⟨good', hagrees, h', hgood⟩ := h.push (q := True) ⟨some node, .intrinsic name⟩ hgrows
    (by simp) (by simp [TypeShape.links]) (fun _ _ _ => trivial)
  have ht : (s.addRow ⟨some node, .intrinsic name⟩).types.Has s.types.nextId :=
    ⟨_, get?_push_nextId _ _⟩
  have hgood := hgood.mpr (.inl trivial)
  refine ⟨good', hagrees, h'.declare hkind (by simp) ht
    (fun _ _ _ => hgood) (by simp), ?_, fun _ => hgood⟩
  rw [entered, declare_eq]
  exact ht

section

variable (hwf : env.tree.WellFormed) (hframed : Framed env check)
  (hcheck : Hygienics env final parameter check)

include hwf hframed hcheck

/-- Every step of a computation keeps the invariant. -/
theorem Step.tracked (hstep : Step env check template own floor m m')
    (h : Tracked env final parameter template own floor q good m)
    (hgrows : m'.state.types.Grows final) :
    ∃ good', Agrees m.state good good' ∧
      Tracked env final parameter template own floor q good' m' := by
  have hframe := hstep.frame hframed
  cases hstep with
  | quiet hquiet =>
    exact ⟨good, .refl, h.extend hframe .refl (h.hygienic.quiet hquiet)
      fun _ => .inl⟩
  | raise =>
    exact ⟨good, .refl, h.extend hframe .refl (h.hygienic.raise _)
      fun _ => .inl⟩
  | error s known =>
    have herror := h.hygienic.error
    exact ⟨good, .refl, h.extend hframe .refl h.hygienic
      (forall_mem_cons_or ⟨herror.1, fun _ => herror.2⟩)⟩
  | look hid hrefers =>
    obtain ⟨hhas, hgood⟩ := h.hygienic.links hrefers
    exact ⟨good, .refl, h.extend hframe .refl h.hygienic
      (forall_mem_cons_or ⟨hhas, fun hq => hgood ((h.known hid).2 hq)⟩)⟩
  | call hn hrun =>
    obtain ⟨good', hagrees, h', ht, hgood⟩ := hcheck.yields h.hygienic h.situated hrun hgrows
    exact ⟨good', hagrees, h.extend hframe hagrees h'
      (forall_mem_cons_or ⟨ht, fun hq => hgood (hn ▸ h.apart.mp hq)⟩)⟩
  | refer hrefers hgiven hrun =>
    obtain ⟨good', hagrees, h', ht, hgood⟩ := checkDeclaredReference_yields hwf hcheck hframed
      h.hygienic h.situated hrefers (fun a ha => h.known (hgiven ha)) h.apart.mp hrun hgrows
    exact ⟨good', hagrees, h.extend hframe hagrees h' (forall_mem_cons_or ⟨ht, hgood⟩)⟩
  | push node hplain _ hlinks _ hfin hready =>
    obtain ⟨good', hagrees, h'⟩ := h.push node hplain hlinks (hfin.types ▸ hgrows)
    exact ⟨good', hagrees, h'.finished hfin (.head _) hready⟩
  | @assemble s known node operands properties hkind hnamed =>
    have hvalues : ∀ id ∈ properties.values, id ∈ known := by
      intro id hid
      obtain ⟨entry, hentry, rfl⟩ := mem_map.mp hid
      exact (hnamed entry hentry).1
    obtain ⟨good', hagrees, h', hgood⟩ := h.hygienic.push (q := q) _ hgrows (by simp)
      (fun id hid => h.known (hvalues id (by simpa [TypeShape.links, anonymous] using hid)))
      (by simp [anonymous])
    exact ⟨good', hagrees, h.extend hframe hagrees h'
      (forall_mem_cons_or ⟨⟨_, get?_push_nextId _ _⟩, fun hq => hgood.mpr (.inl hq)⟩)⟩
  | @amend s known id f hown hamended =>
    refine ⟨good, .refl, h.extend hframe .refl
      (h.hygienic.modifyShape (fun hshape => (hamended hshape).grown) ?_) fun _ => .inl⟩
    intro shape hshape other hother
    refine ((hamended hshape).links other hother).imp_right fun hmem => ?_
    obtain ⟨hhas, hgood⟩ := h.known hmem
    refine ⟨hhas, fun hid => ?_⟩
    rcases (h.own hown).2 hid with hq | hclear
    · exact hgood hq
    · have hshape' : (s.types.modifyShape id f).shape? id = some (f shape) := by
        rw [shape?_modifyShape, if_pos rfl, hshape]
        rfl
      obtain ⟨last, hlast, hgrown⟩ := hgrows.shape hshape'
      exact h.hygienic.clear hhas (hclear.of_refers ⟨last, hlast, hgrown.links_subset hother⟩)
  | note =>
    exact ⟨good, .refl, h.extend hframe .refl { h.hygienic with }
      fun _ => .inl⟩

/-- So does all work. -/
theorem Work.tracked (hwork : Work env check template own floor m m')
    (h : Tracked env final parameter template own floor q good m)
    (hgrows : m'.state.types.Grows final) :
    ∃ good', Agrees m.state good good' ∧
      Tracked env final parameter template own floor q good' m' := by
  induction hwork using Relation.ReflTransGen.head_induction_on generalizing good with
  | refl => exact ⟨good, .refl, h⟩
  | @head m m₁ hstep hrest ih =>
    have hlater : Frame own m₁.state m'.state := Work.frame hframed hrest
    obtain ⟨good₁, hagrees₁, h₁⟩ := hstep.tracked hwf hframed hcheck h (hlater.grows.trans hgrows)
    obtain ⟨good₂, hagrees₂, h₂⟩ := ih h₁
    exact ⟨good₂, hagrees₁.trans (hstep.frame hframed).grows hagrees₂, h₂⟩

theorem Leads.tracked (hleads : Leads env check template own floor s known s' P)
    (h : Tracked env final parameter template own floor q good ⟨s, known⟩)
    (hgrows : s'.types.Grows final) :
    ∃ good' known', Agrees s good good' ∧
      Tracked env final parameter template own floor q good' ⟨s', known'⟩ ∧ P known' := by
  obtain ⟨known', hwork, hP⟩ := hleads
  obtain ⟨good', hagrees, h'⟩ := hwork.tracked hwf hframed hcheck h hgrows
  exact ⟨good', known', hagrees, h', hP⟩

/-- So does the construction of a type, with the decorators that are run on it. -/
theorem Completes.tracked {type : TypeId}
    (hcomps : Completes env check template type floor s s₁ s' known)
    (h : Tracked env final parameter template (some type) floor q good ⟨s, known⟩)
    (htype : type ∈ known) (hgrows : s'.types.Grows final) :
    ∃ good', Agrees s good good' ∧ Hygienic env final parameter good' s' := by
  obtain ⟨finish, hfin, hready⟩ := hcomps.finished
  have hfilled : Leads env check template (some type) floor s known s₁ (type ∈ ·) :=
    hcomps.filled.bind fun _ hsub _ => .done (hsub htype)
  obtain ⟨good', known', hagrees, h', hmem⟩ := hfilled.tracked hwf hframed hcheck h
    (hfin.types ▸ hgrows)
  exact ⟨good', hagrees, (h'.finished hfin hmem hready).hygienic⟩

variable (h : Hygienic env final parameter good s) (hs : Situated env s)

include h hs

omit hwf in
/-- Statements that are checked one after the other keep the invariant. -/
theorem visits_hygienic {u : PUnit}
    (hrun : statements.forM (fun statement => discard (check statement)) env s = some (u, s'))
    (hgrows : s'.types.Grows final) :
    ∃ good', Agrees s good good' ∧ Hygienic env final parameter good' s' := by
  induction statements generalizing s good with
  | nil =>
    obtain rfl := run_forM_nil.mp hrun
    exact ⟨good, .refl, h⟩
  | cons statement statements ih =>
    obtain ⟨s₁, hfirst, hrest⟩ := run_forM_cons.mp hrun
    obtain ⟨t, hfirst⟩ := run_discard.mp hfirst
    have hframe := hframed.frame hfirst
    have hlater := visits_frame hframed hrest
    obtain ⟨good₁, hagrees₁, h₁, -⟩ := hcheck.yields h hs hfirst (hlater.grows.trans hgrows)
    obtain ⟨good₂, hagrees₂, h₂⟩ := ih h₁ (hs.mono hframe.context hframe.grows) hrest
    exact ⟨good₂, hagrees₁.trans hframe.grows hagrees₂, h₂⟩

/-- A model or an interface is good if its declaration is apart from the parameter. -/
theorem Built.yields (hkey : templateKey node env s = some (key, s₁))
    (horigin : stub.origin? = some (if s.isInstantiating node then key else [],
      if (env.tree.templateParameters node).isEmpty then none else some node))
    (hbuilt : Built env check node s₁.types.nextId stub marks (s₁.opened node key stub marks) s₂)
    (hclosed : Closed env.tree node key s₁.types.nextId (!(env.tree.templateParameters node).isEmpty)
      (s.isInstantiating node) { s₂ with building := s₁.building } s')
    (hgrows : s'.types.Grows final) :
    Yields env final parameter good s s' s₁.types.nextId
      (Apart env parameter good s (env.tree.templateDeclarationOf? node)) := by
  obtain ⟨kind, hkind, hrole, hsymKind⟩ := hbuilt.statement
  have hnode := hwf.templateDeclarationOf_statement hkind hrole
  have hframe₁ : Frame none s s₁ := templateKey_frame hkey
  obtain ⟨_, hcomps⟩ := hbuilt.completes hwf hframed
  have hframe₂ := hcomps.frame hframed
  obtain ⟨s₃, hframe₃, heq⟩ := hclosed.frame
  have hpushed : s₁.types.Grows (s₁.opened node key stub marks).types := .push _ _
  have hgrows₂ : s₂.types.Grows final := hframe₃.grows.trans (by rw [heq] at hgrows; exact hgrows)
  have hgrows₁ := hframe₂.grows.trans hgrows₂
  obtain ⟨good₁, hagrees₁, h₁, hhas₁, hkeyGood⟩ := templateKey_hygienic hwf h hs hkey
    (hpushed.trans hgrows₁)
  have hiff : (∀ a ∈ key, good₁ a) ↔
      Apart env parameter good s (env.tree.templateDeclarationOf? node) :=
    hkeyGood.trans ⟨.of_declaration hnode, .to_declaration hs⟩
  obtain ⟨good₂, hagrees₂, h₂, hgood₂⟩ := hbuilt.opened h₁ horigin hgrows₁ hhas₁ hiff
  have ht : (s₁.opened node key stub marks).types.Has s₁.types.nextId :=
    ⟨_, get?_push_nextId _ _⟩
  have hhas₂ : ∀ a ∈ key, (s₁.opened node key stub marks).types.Has a := fun a ha =>
    hpushed.has (hhas₁ a ha)
  have hagrees : Agrees s good good₂ := hagrees₁.trans hframe₁.grows hagrees₂
  obtain ⟨good₃, hagrees₃, h₃⟩ := hcomps.tracked hwf hframed hcheck
    (.construct h₂ hs (hs.mono hframe₁.context (hframe₁.grows.trans hpushed)) hframe₁.context
      hagrees ht (List.Subset.refl _) hframe₁.grows.size_le hgood₂) mem_cons_self hgrows₂
  have hgood₃ : Apart env parameter good s (env.tree.templateDeclarationOf? node) →
      good₃ s₁.types.nextId := fun hq => (hagrees₃ ht).mpr (hgood₂.mpr (.inl hq))
  have hkey₃ : (∀ a ∈ key, good₃ a) → good₃ s₁.types.nextId := fun hall =>
    hgood₃ (hiff.mp ((hagrees₂.all hhas₁).mp ((hagrees₃.all hhas₂).mp hall)))
  have hbuilding : Hygienic env final parameter good₃ { s₂ with building := s₁.building } :=
    { h₃ with }
  refine ⟨good₃, hagrees.trans (hframe₁.grows.trans hpushed) hagrees₃,
    hclosed.hygienic hbuilding hkind hsymKind
      ⟨hframe₂.grows.has ht, fun a ha => hframe₂.grows.has (hhas₂ a ha), hkey₃⟩
      (fun hinst hnot => hgood₃ (.of_declaration hnode (.of_not_mem hinst hnot))), ?_, hgood₃⟩
  rw [heq]
  exact hframe₃.grows.has (hframe₂.grows.has ht)

/-- A model expression is good in a place that is apart from the parameter. -/
theorem checkModelExpression_yields (hkind : env.tree.kind? node = some (.modelExpression members))
    (hmems : checkMembers check s.types.nextId node members env (s.drafted node) = some ((), s₁))
    (hgrows : s₁.types.Grows final) :
    Yields env final parameter good s { s₁ with building := s.building } s.types.nextId
      (Apart env parameter good s (env.tree.templateDeclarationOf? node)) := by
  have hleads := checkExpression_leads hwf hframed hkind hmems
  have hframe := hleads.frame hframed
  have hpushed : s.types.Grows (s.addRow ⟨some node, .model .anonymous⟩).types := .push _ _
  obtain ⟨good₁, hagrees₁, h₁, hgood₁⟩ := h.push ⟨some node, .model .anonymous⟩
    (hframe.grows.trans hgrows) (by simp) (q := Apart env parameter good s
      (env.tree.templateDeclarationOf? node)) (fun id hid => by
        simp [TypeShape.links, anonymous, OrderedMap.values, OrderedMap.empty] at hid)
      (by simp [anonymous])
  have ht : (s.addRow ⟨some node, .model .anonymous⟩).types.Has s.types.nextId :=
    ⟨_, get?_push_nextId _ _⟩
  have hstart : Hygienic env final parameter good₁ (s.drafted node) := { h₁ with }
  obtain ⟨good₂, known, hagrees₂, h₂, -⟩ := hleads.tracked hwf hframed hcheck
    (.construct hstart hs (hs.mono rfl hpushed) rfl hagrees₁ ht (nil_subset _) (Nat.le_refl _)
      hgood₁) hgrows
  exact ⟨good₂, hagrees₁.trans hpushed hagrees₂, { h₂.hygienic with }, hframe.grows.has ht,
    fun hq => (hagrees₂ ht).mpr (hgood₁.mpr (.inl hq))⟩

/-- An enum is good. -/
theorem enum_yields {parts : EnumNode} {e : EnumType}
    (hkind : env.tree.kind? node = some (.enumStatement parts))
    (hbefore : Leads env check (env.tree.templateDeclarationOf? node) none s.types.size s [] s₁ P)
    (hempty : e.members = [])
    (hafter : Completes env check (env.tree.templateDeclarationOf? node) s₁.types.nextId
      s₁.types.size (s₁.entered node (.enumType e)) s₃ s₂ [s₁.types.nextId])
    (hfilled : Filled s₂ s') (hgrows : s'.types.Grows final) :
    Yields env final parameter good s s' s₁.types.nextId
      (Apart env parameter good s (env.tree.templateDeclarationOf? node)) := by
  have hframe₁ := hbefore.frame hframed
  have hframe₂ : Frame none (s₁.addRow ⟨some node, .enumType e⟩) _ :=
    declare_frame (s₁.bindings.symbolOf? node) s₁.types.nextId s₁.types.nextId false []
  have hframe₃ := hafter.frame hframed
  have hpushed : s₁.types.Grows (s₁.addRow ⟨some node, .enumType e⟩).types := .push _ _
  have hframe₄ : Frame none s₂ s' := hfilled.frame
  have hgrows₃ := hframe₄.grows.trans hgrows
  have hgrows₁ := (hframe₂.grows.trans hframe₃.grows).trans hgrows₃
  obtain ⟨good₁, known₁, hagrees₁, h₁, -⟩ := hbefore.tracked hwf hframed hcheck (.start h hs)
    (hpushed.trans hgrows₁)
  have hnone := hwf.templateDeclarationOf_statement hkind rfl
    (Tree.templateParameters_of_kind hkind)
  have hq : Apart env parameter good s (env.tree.templateDeclarationOf? node) := hnone ▸ .none
  obtain ⟨good₂, hagrees₂, h₂, hgood₂⟩ := h₁.hygienic.push ⟨some node, .enumType e⟩ hgrows₁ (by simp)
    (q := Apart env parameter good s (env.tree.templateDeclarationOf? node))
    (by simp [TypeShape.links, hempty]) (by simp)
  have ht : (s₁.addRow ⟨some node, .enumType e⟩).types.Has s₁.types.nextId :=
    ⟨_, get?_push_nextId _ _⟩
  have hdecl : Hygienic env final parameter good₂
      (s₁.entered node (.enumType e)) :=
    h₂.declare hkind (by simp) ht (fun _ _ _ => hgood₂.mpr (.inl hq)) (by simp)
  have hbegun := (hframe₁.grows.trans hpushed).trans hframe₂.grows
  have hagrees : Agrees s good good₂ := hagrees₁.trans hframe₁.grows hagrees₂
  obtain ⟨good₃, hagrees₃, h₃⟩ := hafter.tracked hwf hframed hcheck
    (.construct hdecl hs (hs.mono (hframe₂.context.trans hframe₁.context) hbegun)
      (hframe₂.context.trans hframe₁.context) hagrees (hframe₂.grows.has ht) (List.Subset.refl _)
      hframe₁.grows.size_le hgood₂) mem_cons_self hgrows₃
  exact ⟨good₃, hagrees.trans hbegun hagrees₃, h₃.filled hfilled,
    hframe₄.grows.has (hframe₃.grows.has (hframe₂.grows.has ht)),
    fun hq => (hagrees₃ (hframe₂.grows.has ht)).mpr (hgood₂.mpr (.inl hq))⟩

/-- An operation outside interfaces is good. -/
theorem operation_yields {parts : OperationNode} {operation : OperationType}
    (hkind : env.tree.kind? node = some (.operationStatement parts))
    (hleads : Leads env check (env.tree.templateDeclarationOf? node) none s.types.size s [] s₁
      fun k => (TypeShape.operation operation).links ⊆ k ∧
        Founded s₁ k none ⟨some node, .operation operation⟩)
    (hfin : Finished ((s₁.addRow ⟨some node, .operation operation⟩).shouldFinish env.tree node)
      s₁.types.nextId (s₁.addRow ⟨some node, .operation operation⟩) s₂)
    (hfilled : Filled (s₂.declare (s₂.bindings.symbolOf? node) s₁.types.nextId s₁.types.nextId false
      []) s') (hgrows : s'.types.Grows final) :
    Yields env final parameter good s s' s₁.types.nextId
      (Apart env parameter good s (env.tree.templateDeclarationOf? node)) := by
  have hframe : Frame none s₂ s' := (declare_frame _ _ _ _ _).trans hfilled.frame
  have hpushed : Frame none s₁ (s₁.addRow ⟨some node, .operation operation⟩) := .addRow (by simp)
  have hgrows₂ := hframe.grows.trans hgrows
  have hgrows₁ : (s₁.addRow ⟨some node, .operation operation⟩).types.Grows final :=
    hfin.types ▸ hgrows₂
  obtain ⟨good₁, known₁, hagrees₁, h₁, hlinks⟩ := hleads.tracked hwf hframed hcheck (.start h hs)
    (hpushed.grows.trans hgrows₁)
  obtain ⟨good', hagrees₂, h₂⟩ := h₁.push (some node) rfl hlinks.1 hgrows₁
  have h' := h₂.finished hfin (.head _) (Underway.judge rfl
    (Nat.le_trans (hleads.frame hframed).grows.size_le hpushed.grows.size_le)).ready
  have hagrees : Agrees s good good' := hagrees₁.trans (hleads.frame hframed).grows hagrees₂
  obtain ⟨hhas, hgood⟩ := h'.known (.head _)
  have hbound : ∀ symbol, s₂.bindings.symbolOf? node = some symbol →
      env.tree.templateDeclarationOf? node = none := fun symbol hsym =>
    h'.hygienic.consistent.templateDeclarationOf hwf hsym
      (fun kind hkind' => by
        rw [hkind, some.injEq] at hkind'
        rw [← hkind']
        simp)
      (Tree.templateParameters_of_kind hkind)
  have hdecl : Hygienic env final parameter good'
      (s₂.declare (s₂.bindings.symbolOf? node) s₁.types.nextId s₁.types.nextId false []) :=
    h'.hygienic.declare hkind (by simp) hhas
      (fun symbol hsym _ => hgood (hbound symbol hsym ▸ .none)) (by simp)
  exact ⟨good', hagrees, hdecl.filled hfilled, hframe.grows.has hhas, hgood⟩

/-- An alias is as good as its value. -/
theorem alias_yields {parts : AliasNode} (hkind : env.tree.kind? node = some (.aliasStatement parts))
    (hkey : templateKey node env s = some (key, s₁))
    (hvalue : check parts.value env (s₁.openAlias (node, key)) =
      some (t, s₂)) (hgrows : s₂.types.Grows final) :
    Yields env final parameter good s
      (s₂.closeAlias env.tree node key t (s.isInstantiating node)) t
      (Apart env parameter good s (env.tree.templateDeclarationOf? node)) := by
  have hnode := hwf.templateDeclarationOf_statement hkind rfl
  have hframe₁ : Frame none s s₁ := templateKey_frame hkey
  have hframe₂ := hframed.frame hvalue
  obtain ⟨good₁, hagrees₁, h₁, hhas₁, hkeyGood⟩ := templateKey_hygienic hwf h hs hkey
    (hframe₂.grows.trans hgrows)
  have hstart : Hygienic env final parameter good₁ (s₁.openAlias (node, key)) := { h₁ with }
  obtain ⟨good₂, hagrees₂, h₂, ht, hgood⟩ := hcheck.yields hstart
    (hs.mono hframe₁.context hframe₁.grows) hvalue hgrows
  have hin : env.tree.templateDeclarationOf? parts.value =
      env.tree.templateDeclarationOf? node :=
    hwf.templateDeclarationOf_child hkind rfl (by simp)
  have hq : Apart env parameter good s (env.tree.templateDeclarationOf? node) → good₂ t :=
    fun hapart => hgood (hin ▸ (Apart.congr hagrees₁ hs hframe₁.context).mpr hapart)
  have hagrees : Agrees s good good₂ := hagrees₁.trans hframe₁.grows hagrees₂
  have h₃ : Hygienic env final parameter good₂ (s₂.leaveAlias (node, key)) := { h₂ with }
  dsimp only [closeAlias]
  split
  · exact ⟨good₂, hagrees, h₃, ht, hq⟩
  next hinst =>
    have hopen : s.isInstantiating node = false := by simpa using hinst
    have hdecl : parameter ∉ env.tree.templateParameters node → good₂ t := fun hnot =>
      hq (.of_declaration hnode (.of_not_mem hopen hnot))
    have hkey₂ : (∀ a ∈ key, good₂ a) → good₂ t := fun hall =>
      hq (.of_declaration hnode (hkeyGood.mp ((hagrees₂.all hhas₁).mp hall)))
    -- The value may have led to a check of the alias itself, which then was recorded before.
    have hknown : ∀ u, s₂.declaredTypeOfNode? node = some u → s₂.types.Has u ∧
        (parameter ∉ env.tree.templateParameters node → good₂ u) := by
      intro u hu
      obtain ⟨symbol, hsym, hsymbolType⟩ := bind_eq_some_iff.mp hu
      obtain ⟨hhas, hgood⟩ := h₂.declared hsymbolType
      exact ⟨hhas, hgood node hsym⟩
    have hgetD : s₂.types.Has ((s₂.declaredTypeOfNode? node).getD t) ∧
        (parameter ∉ env.tree.templateParameters node →
          good₂ ((s₂.declaredTypeOfNode? node).getD t)) := by
      cases hu : s₂.declaredTypeOfNode? node with
      | none => exact ⟨ht, hdecl⟩
      | some u => exact hknown u hu
    refine ⟨good₂, hagrees, h₃.declare hkind (by simp) hgetD.1 (fun _ _ => hgetD.2)
      fun _ => ⟨ht, fun a ha => hframe₂.grows.has (hhas₁ a ha), hkey₂⟩, ?_, hq⟩
    rw [declare_eq]
    exact ht

/-- The type of a namespace is good. -/
theorem contents_yields {f : NamespaceType → NamespaceType}
    (ht : (s.bindings.symbolOf? node).bind s.namespaceTypeOf? = some t)
    (hleads : Leads env check (env.tree.templateDeclarationOf? node) none s.types.size
      (s.visiting node) [] s₁ P)
    (hf : ∀ n : NamespaceType, n.Extends (f n))
    (hdec : Decorated t applications
      (s₁.modifyTypes fun types => types.modifyNamespace t f) s₂)
    (hrun : statements.forM (fun statement => discard (check statement)) env s₂ = some ((), s'))
    (hgrows : s'.types.Grows final) : Yields env final parameter good s s' t q := by
  obtain ⟨symbol, -, hloc⟩ := bind_eq_some_iff.mp ht
  obtain ⟨hhas, hgood⟩ := h.namespaces hloc
  have hmarked : Hygienic env final parameter good (s.visiting node) := { h with }
  have hmark : Frame none s (s.visiting node) :=
    { Frame.refl none s with visited := subset_append_left _ _ }
  have hframe₁ := hmark.trans (hleads.frame hframed)
  have hfill : Frame none s₁ (s₁.modifyTypes fun types => types.modifyNamespace t f) :=
    .modifyNamespace t hf
  have hframe₂ := hfill.trans (.ofDecorated hdec)
  have hframe₃ := visits_frame hframed hrun
  obtain ⟨good₁, known, hagrees₁, h₁, -⟩ := hleads.tracked hwf hframed hcheck
    (.start hmarked { hs with }) ((hframe₂.trans hframe₃).grows.trans hgrows)
  have hagrees : Agrees s good good₁ := hagrees₁
  have h₂ : Hygienic env final parameter good₁ s₂ :=
    (h₁.hygienic.filled (.inr ⟨t, f, hf, rfl⟩)).decorated hdec
      (hfill.grows.has (hframe₁.grows.has hhas))
      (.inl ((hagrees hhas).mpr hgood))
  have hframe := hframe₁.trans hframe₂
  obtain ⟨good₃, hagrees₃, h₃⟩ := visits_hygienic hframed hcheck h₂
    (hs.mono hframe.context hframe.grows) hrun hgrows
  have hall : Agrees s good good₃ := hagrees.trans hframe.grows hagrees₃
  exact ⟨good₃, hall, h₃, (hframe.trans hframe₃).grows.has hhas, fun _ => (hall hhas).mpr hgood⟩

end

variable (hc : env.tree.Complete) (hframed : Framed env check)
  (hcheck : Hygienics env final parameter check)

include hc hframed hcheck

/-- Whatever the check of a node comes to, the type is good if the node is apart from the
parameter. -/
theorem Evaluates.yields (heval : Evaluates env check node s t s')
    (h : Hygienic env final parameter good s) (hs : Situated env s) (hgrows : s'.types.Grows final) :
    Yields env final parameter good s s' t
      (Apart env parameter good s (env.tree.templateDeclarationOf? node)) := by
  have hwf := hc.toWellFormed
  cases heval with
  | work _ hleads =>
    obtain ⟨good', known, hagrees, h', ht⟩ := hleads.tracked hwf hframed hcheck (.start h hs) hgrows
    exact ⟨good', hagrees, h'.hygienic, h'.known ht⟩
  | @union s₁ _ lists _ _ hleads =>
    obtain ⟨good₁, known, hagrees₁, h₁, hlists⟩ := hleads.tracked hwf hframed hcheck (.start h hs)
      ((Grows.push s₁.types _).trans hgrows)
    have hlinks : (TypeShape.union lists.flatten).links ⊆ known := hlists
    obtain ⟨good', hagrees, h'⟩ := h₁.push (some node) rfl hlinks hgrows
    exact ⟨good', hagrees₁.trans (hleads.frame hframed).grows hagrees, h'.hygienic,
      h'.known mem_cons_self⟩
  | known _ _ houtside hknown => exact known_yields h houtside hknown
  | parameter hkind hrun =>
    obtain ⟨declaration, hp⟩ := hc.exists_declaration hkind
    rw [hwf.templateDeclarationOf_parameter hp]
    exact checkTemplateParameter_yields hwf hp h hs hgrows hrun
  | literal _ hrun => exact checkLiteral_yields h hgrows hrun
  | intrinsic hkind _ =>
    rw [entered, declare_eq] at hgrows
    exact intrinsic_yields h hkind hgrows
  | pending hkey hpend =>
    obtain ⟨good', hagrees, h', -, hkeyGood⟩ := templateKey_hygienic hwf h hs hkey hgrows
    obtain ⟨ht, -, hgood⟩ := h'.pending hpend
    exact ⟨good', hagrees, h', ht, fun hapart => hgood (hkeyGood.mpr (hapart.to_declaration hs))⟩
  | construct _ hkey _ horigin _ _ hbuilt hclosed =>
    exact hbuilt.yields hwf hframed hcheck h hs hkey horigin hclosed hgrows
  | expression hkind hmems =>
    exact checkModelExpression_yields hwf hframed hcheck h hs hkind hmems hgrows
  | enum hkind _ hbefore hempty _ henum heq =>
    exact enum_yields hwf hframed hcheck h hs hkind hbefore hempty
      (henum.completes hwf hframed _ hkind (entered_shape _ _) hempty)
      (heq ▸ enlist_filled _ _ _ _) hgrows
  | operation hkind _ _ _ _ hleads hfin heq =>
    exact operation_yields hwf hframed hcheck h hs hkind hleads hfin
      (heq ▸ enlist_filled _ _ _ _) hgrows
  | visited _ hloc =>
    obtain ⟨symbol, -, hloc⟩ := bind_eq_some_iff.mp hloc
    obtain ⟨hhas, hgood⟩ := h.namespaces hloc
    exact ⟨good, .refl, h, hhas, fun _ => hgood⟩
  | contents _ hloc _ hleads hdec hrun =>
    exact contents_yields hwf hframed hcheck h hs hloc hleads (fun n => .decorate n _) hdec
      hrun hgrows
  | untyped =>
    exact ⟨good, .refl, h.raise _, h.error.1, fun _ => h.error.2⟩
  | cyclicAlias _ hkey _ hquiet =>
    obtain ⟨good', hagrees, h', -⟩ := templateKey_hygienic hwf h hs hkey (hquiet.types ▸ hgrows)
    have herror := (h'.quiet hquiet).error
    exact ⟨good', hagrees, h'.quiet hquiet, herror.1, fun _ => herror.2⟩
  | aliased hkind _ hkey hvalue =>
    refine alias_yields hwf hframed hcheck h hs hkind hkey hvalue ?_
    dsimp only [closeAlias] at hgrows
    split at hgrows
    · exact hgrows
    · rw [declare_eq] at hgrows
      exact hgrows

omit hframed hcheck in
/-- Every check of a node yields a type that is good if the node is apart from the parameter. -/
theorem checkNode_hygienics (depth : Nat) : Hygienics env final parameter (checkNode depth) := by
  induction depth with
  | zero => exact ⟨fun _ _ h => absurd h run_checkNode_zero⟩
  | succ depth ih =>
    have hframed := checkNode_framed hc.toWellFormed depth
    refine ⟨fun h hs hrun hgrows => ?_⟩
    exact (checkStep_evaluates hc.toWellFormed hframed hrun).yields hc hframed ih h hs hgrows

end ApiSchema.Checking
