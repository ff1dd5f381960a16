import ApiSchema.Proofs.Models.Orderly

/-!
# Filling a model

A model under construction gets its base, copies of properties and declared properties, one after
the other. This module follows its construction from the stub to the complete model, and shows that
the invariant is kept at every point of it and that the model is accounted for at the end.
-/

namespace ApiSchema

open OrderedMap TypeTable Option List

variable {id source : TypeId} {node member target : NodeId} {finish : Bool}
  {copies properties : List TypeId} {use : ReadingUse} {u : Unit} {r : Reading}

namespace TypeTable

variable {types types' : TypeTable} {properties : List TypeId}

/-- All types in the list are properties. -/
def AllProperties (types : TypeTable) (properties : List TypeId) : Prop :=
  ∀ p ∈ properties, ∃ property, types.property? p = some property

theorem AllProperties.grows (h : types.AllProperties properties) (hgrows : types.Grows types') :
    types'.AllProperties properties := by
  intro p hp
  obtain ⟨property, hprop⟩ := h p hp
  exact ⟨property, hgrows.property hprop⟩

theorem AllProperties.propertyNames (h : types.AllProperties properties)
    (hgrows : types.Grows types') :
    types'.propertyNames properties = types.propertyNames properties := by
  refine filterMap_congr fun p hp => ?_
  obtain ⟨property, hprop⟩ := h p hp
  rw [hprop, hgrows.property hprop]

theorem allProperties_ownProperties (hnames : types.NamesProperties) (id : TypeId) :
    types.AllProperties (types.ownProperties id) := by
  intro p hp
  cases hm : types.model? id with
  | none => simp [ownProperties, hm] at hp
  | some m =>
    rw [ownProperties, hm] at hp
    obtain ⟨entry, hentry, rfl⟩ := mem_map.mp (show p ∈ m.properties.values from hp)
    obtain ⟨property, hprop, -⟩ := hnames hm entry hentry
    exact ⟨property, hprop⟩

end TypeTable

namespace Checking

variable {env : Environment} {check : Check} {t : TypeId} {inherited names names' : List String}
  {s s' s₁ : State} {m : ModelType}

/-! ### Adding properties -/

/-- Between the states a model under construction got properties that have some of the given names,
but none that it inherits. It got all of them if nothing was reported. -/
structure Fills (env : Environment) (t : TypeId) (inherited names : List String) (s s' : State) :
    Prop where
  frame : Frame (some t) s s'
  orderly : Orderly env s'
  base {m m' : ModelType} : s.types.model? t = some m → s'.types.model? t = some m' →
    m'.base = m.base
  upper {m m' : ModelType} : s.types.model? t = some m → s'.types.model? t = some m' →
    ∀ name ∈ m'.properties.keys, name ∈ m.properties.keys ∨ name ∈ names ∧ name ∉ inherited
  lower {m' : ModelType} : s'.diagnostics.toList = [] → s'.types.model? t = some m' →
    names ⊆ m'.properties.keys

namespace Fills

/-- Nothing happens to the model. -/
theorem still (hframe : Frame none s s') (h : Orderly env s') : Fills env t inherited [] s s' := by
  have hmodel : ∀ {m m'}, s.types.model? t = some m → s'.types.model? t = some m' → m' = m := by
    intro m m' hm hm'
    have hkept := hframe.shape (by simp) (model?_eq_some_iff.mp hm) rfl
    exact mem_unique hm' (model?_eq_some_iff.mpr hkept)
  exact ⟨hframe.mono _, h, fun hm hm' => congrArg ModelType.base (hmodel hm hm'),
    fun hm hm' name hname => .inl (hmodel hm hm' ▸ hname), fun _ _ => nil_subset _⟩

theorem refl (h : Orderly env s) : Fills env t inherited [] s s := .still (.refl _ _) h

/-- Models are filled step by step. -/
theorem trans (h : Fills env t inherited names s s₁) (h' : Fills env t inherited names' s₁ s')
    (hm : s.types.model? t = some m) : Fills env t inherited (names ++ names') s s' := by
  obtain ⟨m₁, hm₁, -⟩ := h.frame.grows.model hm
  obtain ⟨m₂, hm₂, hgrown⟩ := h'.frame.grows.model hm₁
  refine ⟨h.frame.trans h'.frame, h'.orderly, fun hm hm' => (h'.base hm₁ hm').trans (h.base hm hm₁),
    fun {m m'} hm hm' name hname => ?_, fun {m'} hnil hm' => ?_⟩
  · rcases h'.upper hm₁ hm' name hname with hold | ⟨hnew, hnot⟩
    · refine (h.upper hm hm₁ name hold).imp_right fun hfirst => ?_
      exact ⟨mem_append_left _ hfirst.1, hfirst.2⟩
    · exact .inr ⟨mem_append_right _ hnew, hnot⟩
  · obtain rfl := mem_unique hm₂ hm'
    have hnil₁ : s₁.diagnostics.toList = [] := prefix_nil.mp (hnil ▸ h'.frame.diagnostics)
    exact append_subset.mpr
      ⟨List.Subset.trans (h.lower hnil₁ hm₁) hgrown.keys_subset, h'.lower hnil hm'⟩

end Fills

/-- A reading is noted by the model under construction. -/
theorem Fills.note (h : Orderly env s) (hreader : r.reader = t) (hm : s.types.model? t = some m)
    (htaken : s.diagnostics.toList = [] → r.use ≠ .inherited → r.Taken s m) :
    Fills env t inherited [] s { s with readings := r :: s.readings } := by
  have hframe : Frame (some t) s { s with readings := r :: s.readings } :=
    { Frame.refl (some t) s with
      readings := ⟨[r], rfl, fun q hq => .inl (by rw [mem_singleton.mp hq, hreader])⟩ }
  have horderly : Orderly env { s with readings := r :: s.readings } := by
    refine h.note (hreader ▸ has_of_model hm) fun hnil huse m' hm' => ?_
    obtain rfl := mem_unique hm (hreader ▸ hm')
    exact htaken hnil huse
  refine ⟨hframe, horderly, fun hm hm' => ?_, fun hm hm' name hname => .inl ?_,
    fun _ _ => nil_subset _⟩
  · exact congrArg ModelType.base (mem_unique hm' hm)
  · exact mem_unique hm' hm ▸ hname

theorem defineProperty_readings (hrun : defineProperty t inherited node id env s = some (u, s')) :
    s'.readings = s.readings := by
  rcases defineProperty_cases hrun with ⟨rfl, -⟩ | ⟨hquiet, -⟩ | ⟨p, -, -, -, rfl⟩
  · rfl
  · rw [hquiet.eq]
  · rfl

/-- A property is added under its name. -/
theorem defineProperty_fills (h : Orderly env s) (ht : t ∈ s.building)
    (hm : s.types.model? t = some m)
    (hrun : defineProperty t inherited node id env s = some (u, s')) :
    Fills env t inherited (s.types.propertyNames [id]) s s' := by
  rcases defineProperty_cases hrun with ⟨rfl, hnone⟩ | ⟨hquiet, hne⟩ | ⟨p, hp, hnot, hnew, rfl⟩
  · rw [show s'.types.propertyNames [id] = [] by simp [propertyNames, hnone]]
    exact .refl h
  · have hstill : Fills env t inherited [] s s' := .still (.ofQuiet hquiet) (h.aside (.quiet hquiet))
    refine { hstill with
      upper := fun hm hm' name hname => (hstill.upper hm hm' name hname).imp_right fun hin => ?_
      lower := fun hnil => absurd hnil hne }
    simp at hin
  · have hfree := hnew m hm
    have hmodel : ∀ {m'}, (s.types.modifyModel t fun m =>
        { m with properties := m.properties.insert p.name id }).model? t = some m' →
        m' = { m with properties := m.properties.insert p.name id } := by
      intro m' hm'
      rw [model?_modifyModel, if_pos rfl, hm, map_some, Option.some.injEq] at hm'
      exact hm'.symm
    have hkeys : (m.properties.insert p.name id).keys = m.properties.keys ++ [p.name] := by
      rw [keys_insert, if_neg (find?_eq_none_iff.mp hfree)]
    have hnames : s.types.propertyNames [id] = [p.name] := by simp [propertyNames, hp]
    have hgrown := ModelType.Grown.insert id hfree
    refine ⟨modifyModel_frame hm hgrown, h.modifyModel ht hm hgrown (fun entry hentry => ?_)
      (fun hbase => h.based hm hbase) (fun _ => rfl), fun hm₀ hm' => ?_,
      fun hm₀ hm' name hname => ?_, fun _ hm' => ?_⟩
    · have hfind := find?_eq_some_iff.mpr hentry
      rw [find?_insert] at hfind
      split at hfind
      next hname =>
        exact ⟨p, Option.some.inj hfind ▸ hp, hname.symm⟩
      · exact h.named hm entry (find?_eq_some_iff.mp hfind)
    · obtain rfl := mem_unique hm hm₀
      rw [hmodel hm']
    · obtain rfl := mem_unique hm hm₀
      rw [hmodel hm', hkeys, mem_append, mem_singleton] at hname
      refine hname.imp_right fun heq => ?_
      rw [hnames, heq]
      exact ⟨mem_singleton_self _, hnot⟩
    · rw [hmodel hm', hkeys, hnames]
      exact subset_append_right _ _

/-! ### Copies -/

/-- Copies have the names of what is copied. -/
theorem copies_aside (hall : s.types.AllProperties properties)
    (hrun : properties.mapM (copyProperty finish) env s = some (copies, s')) :
    Aside s s' ∧ Frame none s s' ∧ s'.types.AllProperties copies ∧
      s'.types.propertyNames copies = s.types.propertyNames properties := by
  induction properties generalizing s copies with
  | nil =>
    obtain ⟨rfl, rfl⟩ := run_mapM_nil.mp hrun
    exact ⟨.refl _, .refl _ _, hall, rfl⟩
  | cons p ps ih =>
    obtain ⟨copy, s₁, rest, hp, hps, rfl⟩ := run_mapM_cons.mp hrun
    obtain ⟨⟨property, hprop⟩, hrest⟩ := forall_mem_cons.mp hall
    have hframe : Frame none s s₁ := copyProperty_frame hp
    rcases copyProperty_cases hp with ⟨hnone, -⟩ | ⟨q, hq, rfl, hfin⟩
    · simp [hprop] at hnone
    · obtain rfl := mem_unique hprop hq
      have hfirst : Aside s s₁ := (Aside.addRow rfl).trans (.finished hfin)
      obtain ⟨hsecond, hframe', hcopies, hnames⟩ := ih (AllProperties.grows hrest hfirst.grows) hps
      have hcopy : s'.types.property? s.types.nextId =
          some { property with source := some p } := by
        refine hsecond.grows.property ?_
        rw [hfin.types, property?_eq_some_iff]
        exact shape?_push_nextId _
      refine ⟨hfirst.trans hsecond, hframe.trans hframe',
        forall_mem_cons.mpr ⟨⟨_, hcopy⟩, hcopies⟩, ?_⟩
      rw [AllProperties.propertyNames hrest hfirst.grows] at hnames
      rw [propertyNames, propertyNames, filterMap_cons, hcopy,
        filterMap_cons, hprop]
      exact congrArg (property.name :: ·) hnames

/-- Properties are defined one after the other. -/
theorem defineProperties_fills {u : PUnit} (h : Orderly env s) (ht : t ∈ s.building)
    (hm : s.types.model? t = some m) (hall : s.types.AllProperties copies)
    (hrun : copies.forM (defineProperty t inherited node) env s = some (u, s')) :
    Fills env t inherited (s.types.propertyNames copies) s s' ∧ s'.readings = s.readings := by
  induction copies generalizing s m with
  | nil =>
    obtain rfl := run_forM_nil.mp hrun
    exact ⟨.refl h, rfl⟩
  | cons copy copies ih =>
    obtain ⟨s₁, hfirst, hrest⟩ := run_forM_cons.mp hrun
    have hdefined := defineProperty_fills h ht hm hfirst
    obtain ⟨m₁, hm₁, -⟩ := hdefined.frame.grows.model hm
    have hothers := (forall_mem_cons.mp hall).2
    obtain ⟨hfills, hreads⟩ := ih hdefined.orderly (hdefined.frame.building ▸ ht) hm₁
      (AllProperties.grows hothers hdefined.frame.grows) hrest
    refine ⟨?_, hreads.trans (defineProperty_readings hfirst)⟩
    rw [AllProperties.propertyNames hothers hdefined.frame.grows] at hfills
    rw [show s.types.propertyNames (copy :: copies) = s.types.propertyNames [copy] ++
      s.types.propertyNames copies from filterMap_append (l := [copy])]
    exact hdefined.trans hfills hm

/-- Properties are copied and then defined. -/
theorem copyInto_fills (h : Orderly env s) (ht : t ∈ s.building) (hm : s.types.model? t = some m)
    (hall : s.types.AllProperties properties)
    (hrun : copyInto t inherited finish node properties env s = some (u, s')) :
    Fills env t inherited (s.types.propertyNames properties) s s' ∧ s'.readings = s.readings := by
  obtain ⟨copies, s₁, hcopies, hdefine⟩ := run_bind.mp hrun
  obtain ⟨haside, hframe, hall₁, hnames⟩ := copies_aside hall hcopies
  obtain ⟨hfills, hreads⟩ := defineProperties_fills (h.aside haside) (haside.building ▸ ht)
    ((haside.model t).trans hm) hall₁ hdefine
  rw [hnames] at hfills
  exact ⟨(Fills.still hframe (h.aside haside)).trans hfills hm, hreads.trans haside.readings⟩

/-! ### Members -/

theorem allProperties_reading (hnamed : s.types.NamesProperties) (node : NodeId) (use : ReadingUse)
    (source : TypeId) : s.types.AllProperties (s.reading t node use source).properties := by
  intro p hp
  obtain ⟨k, -, hk⟩ := mem_flatMap.mp hp
  exact allProperties_ownProperties hnamed k p hk

/-- What was read of a model is taken over once its properties have been copied. -/
theorem taken_of_copied {m' y : ModelType} (h : Orderly env s) (ht : t ∈ s.building)
    (hy : s.types.model? source = some y) (hframe : Frame (some t) s s')
    (hkeys : s.types.propertyNames (s.reading t node use source).properties ⊆ m'.properties.keys)
    (hbase : use = .copied true → m'.base = y.base) :
    (s.reading t node use source).Taken s' m' := by
  have hsteady := Steady.ofFrame hframe ht
  refine ⟨hframe.grows.has (has_of_model hy), fun _ p hp => ?_, fun _ hset => ?_,
    fun {y'} hy' huse hset => ?_⟩
  · obtain ⟨property, hprop⟩ := allProperties_reading h.named node use source p hp
    refine ⟨property, hframe.grows.property hprop, hkeys ?_⟩
    exact mem_filterMap.mpr ⟨p, hp, by rw [hprop]; rfl⟩
  · have hupheld : (s.reading t node use source).Upheld s := ⟨rfl, rfl, hset⟩
    exact hupheld.steady hsteady h.based hy
  · have hcomp : source ∉ s.building := hset source (use.mem_models s.types source)
    obtain rfl := mem_unique (hsteady.model hy hcomp) hy'
    exact hbase huse

/-- What is no model leaves nothing to take over. -/
theorem taken_of_other (hsource : s.types.Has r.source) (hnone : s.types.model? r.source = none) :
    r.Taken s m :=
  ⟨hsource, fun hy => by simp [hnone] at hy, fun hy => by simp [hnone] at hy,
    fun hy => by simp [hnone] at hy⟩

/-- What is spread is taken over. -/
theorem spreadInto_fills {u : Unit} (h : Orderly env s) (ht : t ∈ s.building)
    (hm : s.types.model? t = some m)
    (hrun : spreadInto t inherited finish member (s.reading t target .spread source) env s =
      some (u, s')) :
    ∃ names, Fills env t inherited names s s' ∧ ∀ {m'}, s'.types.model? t = some m' →
      s'.diagnostics.toList = [] → (s.reading t target .spread source).Taken s' m' := by
  simp only [spreadInto, getTypes_bind] at hrun
  replace hrun := run_chosen hrun
  split at hrun
  next hshape =>
    obtain ⟨-, rfl⟩ := run_pure.mp hrun
    exact ⟨_, .refl h, fun _ _ => taken_of_other (has_of_shape hshape)
      (model?_eq_none_of_isModel hshape rfl)⟩
  next y hshape =>
    have hfills := (copyInto_fills h ht hm (allProperties_reading h.named _ _ _) hrun).1
    exact ⟨_, hfills, fun hm' hnil => taken_of_copied h ht (model?_eq_some_iff.mpr hshape)
      hfills.frame (hfills.lower hnil hm') (fun huse => by simp at huse)⟩
  · split at hrun
    · have hquiet := report_quiet hrun
      exact ⟨_, .still (.ofQuiet hquiet) (h.aside (.quiet hquiet)),
        fun _ hnil => absurd hnil (diagnostics_ne_nil_of_report hrun)⟩
    next herror =>
      obtain ⟨-, rfl⟩ := run_pure.mp hrun
      rw [Bool.not_eq_true, Bool.not_eq_false'] at herror
      have hsource : source = errorType := of_decide_eq_true herror
      exact ⟨_, .refl h, fun _ _ => taken_of_other (hsource ▸ has_of_shape h.error)
        (hsource ▸ model?_eq_none_of_isModel h.error rfl)⟩

section

variable (hwf : env.tree.WellFormed)
  (hcheck : Relates env (fun s s' => Orderly env s → Orderly env s') check)

include hcheck

/-- A spread fills in what it reads, which is what the check of its target answers. -/
theorem checkSpread_fills (h : Orderly env s) (ht : t ∈ s.building) (hm : s.types.model? t = some m)
    (hrun : checkSpread check t inherited finish member target env s = some (u, s')) :
    ∃ names, Fills env t inherited names s s' ∧ ∃ source s₁, check target env s = some (source, s₁) ∧
      s₁.reading t target .spread source ∈ s'.readings := by
  obtain ⟨source, s₁, hsource, hrun⟩ := run_bind.mp hrun
  simp only [get_bind] at hrun
  obtain ⟨_, s₂, hspread, hnote⟩ := run_bind.mp hrun
  obtain rfl := run_modify.mp hnote
  have hstill : Fills env t inherited [] s s₁ :=
    .still (hcheck.framed.frame hsource) (hcheck.related hsource h)
  obtain ⟨m₁, hm₁, -⟩ := hstill.frame.grows.model hm
  obtain ⟨names, hfills, htaken⟩ := spreadInto_fills hstill.orderly (hstill.frame.building ▸ ht) hm₁
    hspread
  obtain ⟨m₂, hm₂, -⟩ := hfills.frame.grows.model hm₁
  refine ⟨_, (hstill.trans hfills hm).trans (.note hfills.orderly rfl hm₂ fun hnil _ =>
    htaken hm₂ hnil) hm, source, s₁, hsource, mem_cons_self⟩

include hwf

/-- A member is a property or a spread. -/
theorem checkMember_fills (h : Orderly env s) (ht : t ∈ s.building) (hm : s.types.model? t = some m)
    (hrun : checkMember check t inherited finish member env s = some (u, s')) :
    (∃ names, Fills env t inherited names s s') ∧
      ∀ target, env.tree.kind? member = some (.modelSpreadProperty target) →
        ∃ r ∈ s'.readings, r.reader = t ∧ r.place = target ∧ r.use = .spread := by
  simp only [checkMember, getTree_bind] at hrun
  replace hrun := run_chosen hrun
  split at hrun
  next parts hkind =>
    obtain ⟨property, s₁, hprop, hdefine⟩ := run_bind.mp hrun
    have hleads : Leads env check _ none s.types.size s [] s₁ (property ∈ ·) :=
      checkProperty_leads hwf hcheck.framed hkind rfl (Nat.le_refl _) hprop
    have hstill : Fills env t inherited [] s s₁ := .still (hleads.frame hcheck.framed)
      ((Stepwise.orderly none).ofWork hcheck hleads h)
    obtain ⟨m₁, hm₁, -⟩ := hstill.frame.grows.model hm
    have hdefined := defineProperty_fills hstill.orderly (hstill.frame.building ▸ ht) hm₁ hdefine
    exact ⟨⟨_, hstill.trans hdefined hm⟩, fun target htarget => by simp [hkind] at htarget⟩
  next target hkind =>
    obtain ⟨names, hfills, source, s₁, -, hread⟩ := checkSpread_fills hcheck h ht hm hrun
    refine ⟨⟨names, hfills⟩, fun target' htarget => ?_⟩
    simp only [hkind, Option.some.injEq, NodeKind.modelSpreadProperty.injEq] at htarget
    exact htarget ▸ ⟨_, hread, rfl, rfl, rfl⟩
  next hnot =>
    obtain ⟨-, rfl⟩ := run_pure.mp hrun
    exact ⟨⟨_, .refl h⟩, fun target htarget => absurd htarget (hnot target)⟩

/-- Members are added one after the other. -/
theorem members_fill {members : List NodeId} {u : PUnit} (h : Orderly env s) (ht : t ∈ s.building)
    (hm : s.types.model? t = some m)
    (hrun : members.forM (checkMember check t inherited finish) env s = some (u, s')) :
    (∃ names, Fills env t inherited names s s') ∧
      ∀ member ∈ members, ∀ target, env.tree.kind? member = some (.modelSpreadProperty target) →
        ∃ r ∈ s'.readings, r.reader = t ∧ r.place = target ∧ r.use = .spread := by
  induction members generalizing s m with
  | nil =>
    obtain rfl := run_forM_nil.mp hrun
    exact ⟨⟨_, .refl h⟩, by simp⟩
  | cons member members ih =>
    obtain ⟨s₁, hfirst, hrest⟩ := run_forM_cons.mp hrun
    obtain ⟨⟨names, hfills⟩, hread⟩ := checkMember_fills hwf hcheck h ht hm hfirst
    obtain ⟨m₁, hm₁, -⟩ := hfills.frame.grows.model hm
    obtain ⟨⟨names', hfills'⟩, hread'⟩ := ih hfills.orderly (hfills.frame.building ▸ ht) hm₁ hrest
    refine ⟨⟨_, hfills.trans hfills' hm⟩, forall_mem_cons.mpr ⟨fun target htarget => ?_, hread'⟩⟩
    obtain ⟨r, hr, hplace⟩ := hread target htarget
    exact ⟨r, hfills'.frame.readings_subset hr, hplace⟩

end

end Checking

end ApiSchema
