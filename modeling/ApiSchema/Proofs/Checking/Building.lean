import ApiSchema.Proofs.Checking.Work
import ApiSchema.Proofs.Types.BaseChain

/-!
# Building types

The computations that build properties, models, interfaces and enums are made of steps too. What
they add to a type under construction is named here, so that later proofs can refer to it: a
property is copied under its name, and a model gets a property only if it has none of that name.
-/

namespace ApiSchema.Checking

open TypeTable OrderedMap Option TypeShape

variable {env : Environment} {check : Check} {template place : Option NodeId}
  {own base : Option TypeId} {floor : Nat} {s s' s₁ : State} {known known' : List TypeId}
  {finish withBase : Bool} {source t model id type : TypeId} {inherited : List String}
  {node member owner : NodeId} {u : Unit} {reading : Reading} {types types' : TypeTable}
  {decorators : List DecoratorApplication} {properties : OrderedMap String TypeId}
  {parts : PropertyNode}

/-! ### Properties -/

/-- What is no property is passed on, and a property is copied. -/
theorem copyProperty_cases (h : copyProperty finish source env s = some (t, s')) :
    (s.types.property? source = none ∧ t = source ∧ s' = s) ∨
    ∃ p, s.types.property? source = some p ∧ t = s.types.nextId ∧
      Finished finish t
        (s.addRow ⟨s.types.node? source, .property { p with source := some source }⟩) s' := by
  simp only [copyProperty, getTypes_bind] at h
  replace h := run_chosen h
  split at h
  next hnone =>
    obtain ⟨rfl, rfl⟩ := run_pure.mp h
    exact .inl ⟨hnone, rfl, rfl⟩
  next p hp =>
    simp only [Chosen, getTypes_bind, addType_bind] at h
    obtain ⟨_, hfinish, rfl⟩ := run_bind_pure.mp h
    exact .inr ⟨p, hp, rfl, finishIf_finished hfinish⟩

/-- A copy stays in the frame. -/
theorem copyProperty_frame (h : copyProperty finish source env s = some (t, s')) :
    Frame own s s' := by
  rcases copyProperty_cases h with ⟨-, -, rfl⟩ | ⟨p, -, -, hfin⟩
  · exact .refl _ _
  · exact Frame.trans (.addRow (by simp)) (.ofFinished hfin)

/-- A copy is known and says what it is copied from. -/
theorem copyProperty_leads (hway : Underway floor template finish s) (hsource : source ∈ known) :
    Works env check template own floor s known (copyProperty finish source) fun t s' k => t ∈ k ∧
      ∀ p, s.types.property? source = some p →
        s'.types.property? t = some { p with source := some source } := by
  refine .getTypes_bind ?_
  split
  next hnone =>
    exact .pure ⟨hsource, by simp [hnone]⟩
  next p hp =>
    have hadded : Frame own s (s.addRow
        ⟨s.types.node? source, .property { p with source := some source }⟩) := .addRow (by simp)
    refine .lookAll hsource (property?_eq_some_iff.mp hp) fun hsub hlinks => ?_
    refine .getTypes_bind (Works.imp (.complete _ rfl (.of_isDeclared rfl) ?_ (.copy hp)
      (hway.frame hadded).ready) fun _ ht => ⟨ht.1, fun q hq => ?_⟩)
    · intro t ht
      simp only [links, List.mem_cons, List.mem_append, mem_toList] at ht
      rcases ht with rfl | ht | ht
      · exact hlinks (by simp [links])
      · exact hlinks (by simp [links, ht])
      · exact some.inj ht ▸ hsub hsource
    · obtain rfl := mem_unique hp hq
      exact property?_eq_some_iff.mpr ht.2

/-- A model gets a property unless it, or by the given names a base model, has one of its name. -/
theorem defineProperty_cases (h : defineProperty model inherited node id env s = some (u, s')) :
    (s' = s ∧ s.types.property? id = none) ∨
    (Quiet s s' ∧ s'.diagnostics.toList ≠ []) ∨
    ∃ p, s.types.property? id = some p ∧ p.name ∉ inherited ∧
      (∀ m, s.types.model? model = some m → m.properties.find? p.name = none) ∧
      s' = s.modifyTypes fun types => types.modifyModel model fun m =>
        { m with properties := m.properties.insert p.name id } := by
  simp only [defineProperty, getTypes_bind] at h
  replace h := run_chosen h
  split at h
  next hnone =>
    obtain ⟨-, rfl⟩ := run_pure.mp h
    exact .inl ⟨rfl, hnone⟩
  next p hp =>
    simp only [Chosen, getTypes_bind] at h
    split at h
    · exact .inr (.inl ⟨report_quiet h, diagnostics_ne_nil_of_report h⟩)
    · split at h
      · exact .inr (.inl ⟨report_quiet h, diagnostics_ne_nil_of_report h⟩)
      next hfree hinh =>
        refine .inr (.inr ⟨p, hp, hinh, fun m hm => ?_, run_modify.mp h⟩)
        simpa [hm, contains] using hfree

/-- A model may get any known property. -/
theorem defineProperty_leads (hown : own = some model) (hid : id ∈ known) :
    Works env check template own floor s known (defineProperty model inherited node id)
      fun _ _ _ => True := fun _ _ h => by
  rcases defineProperty_cases h with ⟨rfl, -⟩ | ⟨hquiet, -⟩ | ⟨p, hp, -, hnew, rfl⟩
  · exact .done trivial
  · exact .step (.quiet hquiet) trivial
  · refine .step (.amend hown fun {shape} hshape => ?_) trivial
    cases shape with
    | model m => exact .property hid hp (hnew m (model?_eq_some_iff.mpr hshape))
    | _ => exact .same _

/-- Copies of known properties are known. -/
theorem copies_leads (hcheck : Framed env check) {properties : List TypeId}
    (hway : Underway floor template finish s) (hknown : properties ⊆ known) :
    Works env check template own floor s known (properties.mapM (copyProperty finish))
      fun copies _ k => copies ⊆ k :=
  .mapM (fun hsub ht => hsub ht) fun _ hp _ _ hwork =>
    (copyProperty_leads (hway.frame (hwork.frame hcheck))
      (hwork.known_subset (hknown hp))).imp fun _ ht => ht.1

/-- They may be put into a model. -/
theorem copyInto_leads (hcheck : Framed env check) {properties : List TypeId}
    (hown : own = some model) (hway : Underway floor template finish s)
    (hknown : properties ⊆ known) :
    Works env check template own floor s known (copyInto model inherited finish node properties)
      fun _ _ _ => True :=
  .bind (copies_leads hcheck hway hknown) fun _ hmem => .forM fun _ hcopy _ _ hwork =>
    defineProperty_leads hown (hwork.known_subset (hmem hcopy))

section

variable (hwf : env.tree.WellFormed) (hcheck : Framed env check)

/-- The type of a default value is known. -/
theorem checkOptionalDefault_leads
    (hplace : ∀ n ∈ place, env.tree.templateDeclarationOf? n = template) :
    Works env check template own floor s known (checkOptionalDefault check type place)
      fun answer _ k => ∀ t ∈ answer, t ∈ k := by
  cases place with
  | none => exact .pure (by simp)
  | some n =>
    refine .bind (.call (hplace n rfl)) fun _ hvalue => .getTypes_bind ?_
    split
    · exact .pure fun t ht => some.inj ht ▸ hvalue
    · split
      · exact .pure fun t ht => some.inj ht ▸ hvalue
      · exact .report_bind fun _ => .pure (by simp)

include hwf hcheck

/-- A declared property is known. -/
theorem checkProperty_leads (hkind : env.tree.kind? node = some (.modelProperty parts))
    (hnode : env.tree.templateDeclarationOf? node = template) (hfloor : floor ≤ s.types.size) :
    Works env check template own floor s known (checkProperty check node parts)
      fun t _ k => t ∈ k := by
  have hin : ∀ n ∈ (NodeKind.modelProperty parts).children,
      env.tree.templateDeclarationOf? n = template := fun n hn =>
    inside_child hwf hkind rfl hn hnode
  refine .bind (.call (hin _ (by simp))) fun {type _ _} hwork₁ htype => ?_
  refine .bind (checkOptionalDefault_leads fun n hn => hin n (by simp_all))
    fun {value _ _} hwork₂ hvalue => ?_
  refine .bind (checkDecorators_leads hwf hnode) fun {decorators s₃ _} hwork₃ hdecs => ?_
  have hadded : Frame own s₃ (s₃.addRow ⟨some node, .property
      ⟨parts.name, type, parts.optional, value, none, decorators⟩⟩) := .addRow (by simp)
  have hfloor₃ := Nat.le_trans hfloor
    ((((hwork₁.trans hwork₂).trans hwork₃).frame hcheck).trans hadded).grows.size_le
  refine Works.imp (.complete _ rfl (.of_isDeclared rfl) ?_ (.declared hdecs)
    (Underway.judge hnode hfloor₃).ready) fun _ ht => ht.1
  intro t ht
  simp only [links, List.mem_cons, List.mem_append, mem_toList] at ht
  rcases ht with rfl | ht | ht
  · exact hwork₃.known_subset (hwork₂.known_subset htype)
  · exact hwork₃.known_subset (hvalue t ht)
  · simp at ht

/-! ### Members of models -/

omit hwf hcheck in
/-- Noting a reading is a step. -/
theorem noteReading_leads (hown : own = some reading.reader)
    (hanswered : reading.AnsweredBy env check own s) :
    Works env check template own floor s known (noteReading reading) fun _ _ _ => True :=
  .modify (.note hown hanswered)

omit hwf in
/-- A spread copies properties that are reached. -/
theorem checkSpread_leads {target : NodeId} (hown : own = some model)
    (hway : Underway floor template finish s)
    (htarget : env.tree.templateDeclarationOf? target = template) :
    Works env check template own floor s known
      (checkSpread check model inherited finish member target) fun _ _ _ => True := by
  refine .bind ((Works.call htarget).also id) fun {source s₁ _} hwork hanswer => .get_bind ?_
  obtain ⟨hknown, hcalled⟩ := hanswer
  refine .reachAll (s₁.types.inheritedProperties source) hknown
    (fun other hother => reaches_of_mem_inheritedProperties hother)
    fun _ hprops => ?_
  refine .bind (P := fun _ _ _ => True) (.getTypes_bind ?_) fun hspread _ =>
    noteReading_leads hown (.inr ⟨s, s₁, hcalled, rfl, hspread.frame hcheck⟩)
  split
  · exact .pure trivial
  · exact copyInto_leads hcheck hown (hway.frame (hwork.frame hcheck)) hprops
  · split
    · exact fun _ _ hrun => .step (.quiet (report_quiet hrun)) trivial
    · exact .pure trivial

/-- A member is a property or a spread. -/
theorem checkMember_leads (hown : own = some model) (hway : Underway floor template finish s)
    (hmember : env.tree.templateDeclarationOf? member = template) :
    Works env check template own floor s known (checkMember check model inherited finish member)
      fun _ _ _ => True := by
  refine .getTree_bind ?_
  split
  · exact .bind (checkProperty_leads hwf hcheck ‹_› hmember hway.floor_le) fun _ hknown =>
      defineProperty_leads hown hknown
  · exact checkSpread_leads hcheck hown hway (inside_child hwf ‹_› rfl (.head _) hmember)
  · exact .pure trivial

omit hwf hcheck in
/-- The names of the bases may be read. -/
theorem readInherited_leads (hown : own = some model) :
    Works env check template own floor s known (readInherited model owner) fun _ _ _ => True := by
  refine .getTypes_bind ?_
  split
  · exact .pure trivial
  · exact .get_bind (.bind (noteReading_leads hown (.inl rfl)) fun _ _ => .getTypes_bind (.pure trivial))

/-- Members are checked one after the other. -/
theorem checkMembers_leads {members : List NodeId} (hown : own = some model)
    (hfloor : floor ≤ s.types.size) (howner : env.tree.templateDeclarationOf? owner = template)
    (hmems : ∀ n ∈ members, env.tree.templateDeclarationOf? n = template) :
    Works env check template own floor s known (checkMembers check model owner members)
      fun _ _ _ => True := by
  refine .bind (readInherited_leads hown) fun hread _ => .shouldFinish_bind ?_
  have hway := Underway.judge howner (Nat.le_trans hfloor (hread.frame hcheck).grows.size_le)
  exact .forM fun n hn _ _ hwork => checkMember_leads hwf hcheck hown
    (hway.frame (hwork.frame hcheck)) (hmems n hn)

/-! ### Intersections -/

omit hwf hcheck in
/-- Properties stay known under their names. -/
theorem Named.mono (h : Named types known properties) (hgrows : types.Grows types')
    (hsub : known ⊆ known') : Named types' known' properties := by
  intro entry hentry
  obtain ⟨hmem, p, hp, hname⟩ := h entry hentry
  exact ⟨hsub hmem, p, hgrows.property hp, hname⟩

omit hwf hcheck in
/-- A known property may be added under its name. -/
theorem Named.insert {p : PropertyType}
    (h : Named types known properties) (hid : id ∈ known) (hp : types.property? id = some p) :
    Named types known (properties.insert p.name id) := by
  intro entry hentry
  rcases find?_insert_cases (find?_eq_some_iff.mpr hentry) with ⟨hname, heq⟩ | hfind
  · exact heq ▸ ⟨hid, p, hp, hname.symm⟩
  · exact h entry (find?_eq_some_iff.mp hfind)

omit hwf in
/-- A property of an operand is copied under its name. -/
theorem intersectProperty_leads {operand : NodeId}
    (hway : Underway floor template finish s) (hid : id ∈ known)
    (hnamed : Named s.types known properties) :
    Works env check template own floor s known (intersectProperty finish operand properties id)
      fun answer s' k => Named s'.types k answer := by
  refine .getTypes_bind ?_
  split
  · exact .pure hnamed
  next p hp =>
    split
    · exact .report_bind fun hquiet => .pure (hquiet.types ▸ hnamed)
    · refine .bind (copyProperty_leads hway hid) fun hwork hcopy => .pure ?_
      exact (hnamed.mono (hwork.frame hcheck).grows hwork.known_subset).insert
        (p := { p with source := some id }) hcopy.1 (hcopy.2 p hp)

omit hwf in
/-- So are the properties of all operands. -/
theorem intersectOperands_leads {operands : List (NodeId × TypeId)}
    (hway : Underway floor template finish s)
    (hknown : ∀ x ∈ operands, x.2 ∈ known) (hnamed : Named s.types known properties) :
    Works env check template own floor s known (intersectOperands finish operands properties)
      fun answer s' k => ∀ ps ∈ answer, Named s'.types k ps := by
  induction operands generalizing s known properties with
  | nil => exact .pure fun ps hps => some.inj hps ▸ hnamed
  | cons operand operands ih =>
    obtain ⟨ht, hrest⟩ := List.forall_mem_cons.mp hknown
    refine .getTypes_bind ?_
    split
    · exact ih hway hrest hnamed
    · refine .reachAll _ ht (fun other hother =>
        reaches_of_mem_inheritedProperties hother) fun hsub₁ hall => ?_
      refine .bind (.foldlM (Q := fun ps s k => Named s.types k ps) (fun x hx _ _ _ hwork hps =>
        intersectProperty_leads hcheck (hway.frame (hwork.frame hcheck))
          (hwork.known_subset (hall hx)) hps) (hnamed.mono (.refl _) hsub₁)) fun hwork hmore => ?_
      exact ih (hway.frame (hwork.frame hcheck))
        (fun x hx => hwork.known_subset (hsub₁ (hrest x hx))) hmore
    · exact .report_bind fun _ => .pure (by simp)

/-- An intersection is made of steps. -/
theorem checkIntersection_leads {operands : List NodeId}
    (hkind : env.tree.kind? node = some (.intersectionExpression operands))
    (hnode : env.tree.templateDeclarationOf? node = template) (hfloor : floor ≤ s.types.size) :
    Works env check template own floor s known (checkIntersection check node operands)
      fun t _ k => t ∈ k := by
  refine .bind (.calls fun n hn => inside_child hwf hkind rfl hn hnode) fun hwork hts =>
    .shouldFinish_bind ?_
  refine .bind (intersectOperands_leads hcheck (.judge hnode
    (Nat.le_trans hfloor (hwork.frame hcheck).grows.size_le))
    (fun x hx => hts (List.of_mem_zip hx).2) fun entry hentry => ?_) fun _ hnamed => ?_
  · simp [empty] at hentry
  · split
    · exact .error
    · intro t s' h
      obtain ⟨rfl, rfl⟩ := run_addType.mp h
      exact .step (.assemble hkind (hnamed _ rfl)) List.mem_cons_self

end

/-! ### Models -/

/-- A model that does not extend another one yet. -/
def Baseless (s : State) (model : TypeId) : Prop :=
  ∃ m, s.types.model? model = some m ∧ m.base = none

/-- Other checks give a model no base. -/
theorem Baseless.frame (h : Baseless s model) (hframe : Frame none s s') :
    Baseless s' model := by
  obtain ⟨m, hm, hbase⟩ := h
  exact ⟨m, model?_eq_some_iff.mpr (hframe.shape (by simp) (model?_eq_some_iff.mp hm) rfl), hbase⟩

/-- Nor does what only reports. -/
theorem Baseless.quiet (h : Baseless s model) (hquiet : Quiet s s') :
    Baseless s' model := by
  rw [Baseless, hquiet.types]
  exact h

/-- Nor does a property. -/
theorem Baseless.defineProperty (h : Baseless s model)
    (hrun : defineProperty model inherited node id env s = some (u, s')) : Baseless s' model := by
  rcases defineProperty_cases hrun with ⟨rfl, -⟩ | ⟨hquiet, -⟩ | ⟨p, -, -, -, rfl⟩
  · exact h
  · exact h.quiet hquiet
  · obtain ⟨m, hm, hbase⟩ := h
    refine ⟨{ m with properties := m.properties.insert p.name id }, ?_, hbase⟩
    change (s.types.modifyModel model _).model? model = _
    rw [model?_modifyModel, if_pos rfl, hm]
    rfl

/-- Nor do copies. -/
theorem Baseless.copyInto (hcheck : Framed env check) {properties : List TypeId}
    (h : Baseless s model)
    (hrun : copyInto model inherited finish node properties env s = some (u, s')) :
    Baseless s' model := by
  obtain ⟨copies, s₁, hcopies, hrun⟩ := run_bind.mp hrun
  have hleads : Leads env check none none 0 s properties s₁ (copies ⊆ ·) :=
    copies_leads hcheck ⟨Nat.zero_le _, fun _ => .outside rfl⟩ (List.Subset.refl _) hcopies
  exact forM_preserves (P := (Baseless · model)) (h.frame (hleads.frame hcheck))
    (fun h hcopy => h.defineProperty hcopy) hrun

/-- A model without a base may get one. -/
theorem setBase_leads (hown : own = some model) (hless : Baseless s model)
    (hbase : ∀ id ∈ base, id ∈ known) :
    Works env check template own floor s known (setBase model base) fun _ _ _ => True := by
  obtain ⟨m, hm, hnone⟩ := hless
  refine .modify (.amend hown fun {shape} hshape => ?_)
  rw [model?_eq_some_iff.mp hm, some.injEq] at hshape
  subst hshape
  exact .base hnone hbase

/-- A base is checked and admitted before it is set. -/
theorem checkBase_leads (hcheck : Framed env check) (hown : own = some model)
    (hless : Baseless s model)
    (hplace : ∀ n ∈ place, env.tree.templateDeclarationOf? n = template) :
    Works env check template own floor s known (checkBase check model place) fun _ _ _ => True := by
  cases place with
  | none => exact .pure trivial
  | some n =>
    refine .bind ((Works.call (hplace n rfl)).also hcheck.frame) fun _ ⟨hknown, hframe⟩ => ?_
    exact .quiet_bind admitHeritage_quiet fun hquiet hbase => setBase_leads hown
      ((hless.frame hframe).quiet hquiet) fun id hid => hbase id hid ▸ hknown

/-- Decorators whose types are mentioned in types that are complete. -/
def Lent (own : Option TypeId) (s : State) (decorators : List DecoratorApplication) : Prop :=
  ∀ id ∈ decoratorTypes decorators, ∃ other row, own ≠ some other ∧
    s.types.get? other = some row ∧ row.shape.isNamespace = false ∧ id ∈ row.shape.stored

/-- No decorators are lent. -/
theorem Lent.nil : Lent own s [] := by simp [Lent, decoratorTypes]

/-- Complete types keep what they lend. -/
theorem Lent.frame (h : Lent own s decorators) (hframe : Frame own s s') :
    Lent own s' decorators := by
  intro id hid
  obtain ⟨other, row, hother, hrow, hshape, hstored⟩ := h id hid
  exact ⟨other, row, hother, hframe.kept hrow hother hshape, hshape, hstored⟩

/-- The decorators of a model that is copied into another one. -/
theorem Lent.of_model {m : ModelType} (hother : own ≠ some source)
    (hm : s.types.model? source = some m) : Lent own s m.decorators := by
  intro id hid
  obtain ⟨row, hrow, hshape⟩ := map_eq_some_iff.mp (model?_eq_some_iff.mp hm)
  exact ⟨source, row, hother, hrow, by simp [hshape],
    by simp [hshape, TypeShape.stored, TypeShape.decorators, hid]⟩

section

variable (hcheck : Framed env check) (hown : own = some model)

include hcheck hown

/-- A model is copied, with its base if asked for. -/
theorem copyModel_leads (hne : model ≠ source) (hway : Underway floor template finish s)
    (hless : withBase = true → Baseless s model) (hsource : source ∈ known) :
    Works env check template own floor s known (copyModel model source node finish withBase)
      fun answer s' _ => Lent own s' answer := by
  refine .getTypes_bind ?_
  split
  · exact .pure .nil
  next copied hcopied =>
    have hlent : Lent own s copied.decorators := .of_model (by simpa [hown] using hne) hcopied
    refine .lookAll hsource (model?_eq_some_iff.mp hcopied) fun _ hlinks => ?_
    have hinto : Works env check template own floor s _
        (copyInto model [] finish node copied.properties.values) fun _ _ _ => True :=
      copyInto_leads hcheck hown hway fun id hid => hlinks (by simp [links, hid])
    refine .bind (hinto.also (R := fun _ s' => Baseless s model → Baseless s' model)
      fun hrun hless => hless.copyInto hcheck hrun) fun hwork hkept => ?_
    have hlent₁ := hlent.frame (hwork.frame hcheck)
    split
    next hwith =>
      refine .bind (setBase_leads hown (hkept.2 (hless hwith)) fun id hid => ?_)
        fun hset _ => .pure (hlent₁.frame (hset.frame hcheck))
      exact hwork.known_subset (hlinks (by simp [links, mem_def.mp hid]))
    · exact .pure hlent₁

/-- A model is not copied into itself, so the decorators that are copied stay where they are. -/
theorem copyHeritage_leads (hway : Underway floor template finish s)
    (hless : withBase = true → Baseless s model) (hsource : source ∈ known) :
    Works env check template own floor s known (copyHeritage model source node finish withBase)
      fun answer s' _ => Lent own s' answer := by
  refine .quiet_bind (R := fun admitted => ∀ id ∈ admitted, id = source ∧ model ≠ source)
    (fun hrun => ⟨(admitHeritage_quiet hrun).1, fun id hid => ?_⟩) fun {admitted _} hquiet hadmit => ?_
  · rcases admitHeritage_cases hrun with ⟨rfl, rfl, hnot, -⟩ | ⟨rfl, -⟩
    · refine ⟨(some.inj hid).symm, fun heq => hnot ?_⟩
      rw [heq]
      exact mem_baseChain_self _ _
    · simp at hid
  · cases admitted with
    | none => exact .pure .nil
    | some id =>
      obtain ⟨rfl, hne⟩ := hadmit id rfl
      have hframe : Frame own s _ := .ofQuiet hquiet
      exact copyModel_leads hcheck hown hne (hway.frame hframe)
        (fun hwith => (hless hwith).quiet hquiet) hsource

/-- The model to copy is checked first. -/
theorem checkCopied_leads (hway : Underway floor template finish s)
    (hless : withBase = true → Baseless s model)
    (hplace : ∀ n ∈ place, env.tree.templateDeclarationOf? n = template) :
    Works env check template own floor s known (checkCopied check model finish withBase place)
      fun answer s' _ => Lent own s' answer := by
  cases place with
  | none => exact .pure .nil
  | some n =>
    refine .bind ((Works.call (hplace n rfl)).also id) fun {source s₁ _} _ hanswer => .get_bind ?_
    obtain ⟨hsource, hcalled⟩ := hanswer
    have hframe := hcheck.frame hcalled
    refine .bind (copyHeritage_leads hcheck hown (hway.frame hframe)
      (fun hwith => (hless hwith).frame hframe) hsource) fun hcopy hlent => ?_
    exact .bind (noteReading_leads hown (.inr ⟨s, s₁, hcalled, rfl, hcopy.frame hcheck⟩))
      fun hnote _ => .pure (hlent.frame (hnote.frame hcheck))

end

/-- A model may get decorators whose types are attached. -/
theorem decorateModel_leads (hown : own = some type) (hattaches : s.types.Attaches known decorators) :
    Leads env check template own floor s known
      (s.modifyTypes fun types => types.modifyModel type fun m => { m with decorators })
      fun _ => True := by
  refine .step (.amend hown fun {shape} _ => ?_) trivial
  cases shape with
  | model m => exact .modelDecorators hattaches
  | _ => exact .same _

/-- A type of its own is filled in by any number of steps, and then, if it is complete, its
decorators are run. -/
structure Completes (env : Environment) (check : Check) (template : Option NodeId) (type : TypeId)
    (floor : Nat) (s s₁ s' : State) (known : List TypeId) : Prop where
  filled : Leads env check template (some type) floor s known s₁ fun _ => True
  finished : ∃ finish, Finished finish type s₁ s' ∧ (finish = true → Ready floor template s₁)

/-- A type is completed in its frame. -/
theorem Completes.frame (hcheck : Framed env check)
    (h : Completes env check template type floor s s₁ s' known) : Frame (some type) s s' := by
  obtain ⟨finish, hfin, -⟩ := h.finished
  exact (h.filled.frame hcheck).trans (.ofFinished hfin)

/-- A model gets its base, then copies, then its decorators, and then its members. -/
theorem buildModel_completes (hwf : env.tree.WellFormed) (hcheck : Framed env check)
    {parts : ModelNode} (hkind : env.tree.kind? node = some (.modelStatement parts))
    (hfloor : floor ≤ s.types.size) (hless : Baseless s type)
    (h : buildModel check node parts type env s = some (u, s')) :
    ∃ s₁, Completes env check (env.tree.templateDeclarationOf? node) type floor s s₁ s' known := by
  have hin : ∀ n ∈ (NodeKind.modelStatement parts).children,
      env.tree.templateDeclarationOf? n = env.tree.templateDeclarationOf? node := fun n hn =>
    inside_child hwf hkind rfl hn rfl
  obtain ⟨_, s₁, hbase, h⟩ := run_bind.mp h
  simp only [shouldFinish_bind] at h
  obtain ⟨copied, s₂, hcopied, h⟩ := run_bind.mp h
  obtain ⟨decorators, s₃, hdecs, h⟩ := run_bind.mp h
  simp only [modify_bind] at h
  obtain ⟨_, s₄, hmems, h⟩ := run_bind.mp h
  have hextended : Leads env check (env.tree.templateDeclarationOf? node) (some type) floor s known
      s₁ fun _ => True :=
    checkBase_leads hcheck rfl hless (fun n hn => hin n (by simp_all)) hbase
  have hway₁ : Underway floor _ (s₁.shouldFinish env.tree node) s₁ :=
    .judge rfl (hextended.floor_le hcheck hfloor)
  have hstill : parts.base.isNone = true → Baseless s₁ type := by
    intro hnone
    rw [isNone_iff_eq_none.mp hnone] at hbase
    obtain ⟨-, rfl⟩ := run_pure.mp hbase
    exact hless
  have hfilled : ∀ known, Leads env check (env.tree.templateDeclarationOf? node) (some type) floor
      s₁ known s₄ fun _ => True := by
    intro known
    have hcopies : Leads env check _ (some type) floor s₁ known s₂ fun _ =>
        Lent (some type) s₂ copied :=
      checkCopied_leads hcheck rfl hway₁ hstill (fun n hn => hin n (by simp_all)) hcopied
    refine hcopies.bind fun known₂ _ hlent => ?_
    have heval : Leads env check _ (some type) floor s₂ known₂ s₃
        (decoratorTypes decorators ⊆ ·) := checkDecorators_leads hwf rfl hdecs
    refine heval.bind fun known₃ _ hknown => ?_
    have hdec : Leads env check (env.tree.templateDeclarationOf? node) (some type) floor s₃ known₃ _
        fun _ => True :=
      decorateModel_leads rfl fun id hid => by
        rw [decoratorTypes, List.flatMap_append, List.mem_append] at hid
        refine hid.elim (fun hid => .inr ?_) fun hid => .inl (hknown hid)
        obtain ⟨other, row, -, hrow, -, hstored⟩ := hlent.frame (heval.frame hcheck) id hid
        exact ⟨other, row.shape, by rw [TypeTable.shape?, hrow]; rfl, hstored⟩
    have hway₃ := hdec.underway hcheck (heval.underway hcheck (hcopies.underway hcheck hway₁))
    exact hdec.bind fun _ _ _ => checkMembers_leads hwf hcheck rfl hway₃.floor_le rfl
      (fun n hn => hin n (by simp_all)) hmems
  exact ⟨s₄, hextended.bind fun known₁ _ _ => hfilled known₁, _, finishIf_finished h,
    ((hfilled known).underway hcheck hway₁).ready⟩

/-- A property that is asked for is found in its model or checked. -/
theorem checkPropertyNode_leads (hwf : env.tree.WellFormed) (hcheck : Framed env check)
    (hkind : env.tree.kind? node = some (.modelProperty parts))
    (hnode : env.tree.templateDeclarationOf? node = template) (hfloor : floor ≤ s.types.size) :
    Works env check template own floor s known (checkPropertyNode check node parts)
      fun t _ k => t ∈ k := by
  refine .getTree_bind ?_
  split
  next parent _ hpar _ =>
    have hin : env.tree.templateDeclarationOf? parent = template := by
      rw [← hnode, hwf.templateDeclarationOf_parent hpar (Tree.templateParameters_of_kind hkind)]
    refine .bind (.call hin) fun hwork hknown => .getTypes_bind ?_
    split
    next existing hexist =>
      exact .reachAll [existing] hknown (by
        simpa using .single (refers_of_mem_ownProperties
          (List.mem_of_find?_eq_some hexist))) fun _ hall => .pure (hall (.head _))
    · exact checkProperty_leads hwf hcheck hkind hnode
        (Nat.le_trans hfloor (hwork.frame hcheck).grows.size_le)
  · exact checkProperty_leads hwf hcheck hkind hnode hfloor

end ApiSchema.Checking
