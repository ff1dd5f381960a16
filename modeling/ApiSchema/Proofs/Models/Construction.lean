import ApiSchema.Proofs.Models.Filling

/-!
# The construction of a model

A model statement first gets its base, then copies of what it is like, then its members. When it is
complete it is accounted for: what it spreads and copies has been read, and its names are distinct,
if what it read for them was complete. So the invariant holds in all states of a session.
-/

namespace ApiSchema.Checking

open TypeTable State Option List

variable {env : Environment} {check : Check} {t source : TypeId} {s s' s₁ : State}
  {m m' : ModelType} {owner node : NodeId} {members : List NodeId} {u : Unit} {outer : List TypeId}
  {finish withBase : Bool} {place : Option NodeId} {answer : List DecoratorApplication}
  {parts : ModelNode} {program : Program}

/-! ### Members and completion -/

/-- Between the states the members of a model were checked. -/
structure Membered (env : Environment) (t : TypeId) (owner : NodeId) (members : List NodeId)
    (s : State) (m : ModelType) (s' : State) (m' : ModelType) : Prop where
  frame : Frame (some t) s s'
  orderly : Orderly env s'
  model : s'.types.model? t = some m'
  base : m'.base = m.base
  inherited {base : TypeId} : m.base = some base → s.reading t owner .inherited base ∈ s'.readings
  names {base : TypeId} : m.base = some base → ∀ name ∈ m'.properties.keys,
    name ∈ m.properties.keys ∨ name ∉ s.types.inheritedNames base
  spreads : ∀ member ∈ members, ∀ target,
    env.tree.kind? member = some (.modelSpreadProperty target) →
    ∃ r ∈ s'.readings, r.reader = t ∧ r.place = target ∧ r.use = .spread

/-- The names that a model inherits are read before its members are checked. -/
theorem readInherited_cases {names : List String} (hm : s.types.model? t = some m)
    (hrun : readInherited t owner env s = some (names, s')) :
    (m.base = none ∧ names = [] ∧ s' = s) ∨ ∃ base, m.base = some base ∧
      names = s.types.inheritedNames base ∧
      s' = { s with readings := s.reading t owner .inherited base :: s.readings } := by
  simp only [readInherited, getTypes_bind, hm, bind_some] at hrun
  replace hrun := run_chosen hrun
  split at hrun
  next hbase =>
    obtain ⟨rfl, rfl⟩ := run_pure.mp hrun
    exact .inl ⟨hbase, rfl, rfl⟩
  next base hbase =>
    simp only [Chosen, get_bind] at hrun
    obtain ⟨_, s₁, hnote, hrun⟩ := run_bind.mp hrun
    simp only [getTypes_bind, run_pure] at hrun
    obtain ⟨rfl, rfl⟩ := hrun
    obtain rfl := run_modify.mp hnote
    exact .inr ⟨base, hbase, rfl, rfl⟩

/-- The members of a model are checked. -/
theorem checkMembers_membered (hwf : env.tree.WellFormed)
    (hcheck : Relates env (fun s s' => Orderly env s → Orderly env s') check) (h : Orderly env s)
    (ht : t ∈ s.building) (hm : s.types.model? t = some m)
    (hrun : checkMembers check t owner members env s = some (u, s')) :
    ∃ m', Membered env t owner members s m s' m' := by
  obtain ⟨inherited, s₁, hinh, hrun⟩ := run_bind.mp hrun
  simp only [shouldFinish_bind] at hrun
  have hread : Fills env t inherited [] s s₁ ∧ ∀ {base}, m.base = some base →
      inherited = s.types.inheritedNames base ∧ s.reading t owner .inherited base ∈ s₁.readings := by
    rcases readInherited_cases hm hinh with ⟨hbase, rfl, rfl⟩ | ⟨base, hbase, rfl, rfl⟩
    · exact ⟨.refl h, fun {base} hsome => by simp [hbase] at hsome⟩
    · refine ⟨.note h rfl hm fun _ huse => absurd rfl huse, fun {base'} hsome => ?_⟩
      obtain rfl := mem_unique hbase hsome
      exact ⟨rfl, mem_cons_self⟩
  obtain ⟨hnoted, hinherits⟩ := hread
  obtain ⟨m₁, hm₁, -⟩ := hnoted.frame.grows.model hm
  obtain ⟨⟨names, hfills⟩, hspreads⟩ := members_fill hwf hcheck hnoted.orderly
    (hnoted.frame.building ▸ ht) hm₁ hrun
  have hall := hnoted.trans hfills hm
  obtain ⟨m', hm', -⟩ := hall.frame.grows.model hm
  refine ⟨m', hall.frame, hall.orderly, hm', hall.base hm hm', fun hbase => ?_,
    fun hbase name hname => ?_, hspreads⟩
  · exact hfills.frame.readings_subset (hinherits hbase).2
  · exact (hall.upper hm hm' name hname).imp_right fun hnew => (hinherits hbase).1 ▸ hnew.2

/-- The names that a model has copied do not collide with those that it inherits, unless it copies
one model and extends another. -/
def Clear (s : State) (t : TypeId) (m : ModelType) : Prop :=
  Sound s t → ∀ {base : TypeId}, m.base = some base → ∀ name ∈ m.properties.keys,
    (name ∉ s.types.inheritedNames base ∧ ∀ k ∈ s.types.baseChain base, k ∉ s.building) ∨
      ∃ r ∈ s.readings, r.reader = t ∧ r.use = .copied false ∧
        name ∈ s.types.propertyNames r.properties

section

variable (hmemb : Membered env t owner members s m s' m') (h : Orderly env s)
  (hm : s.types.model? t = some m) (hbuilding : s.building = t :: outer)

include hmemb h hm hbuilding

/-- The names of a model with all its members are distinct. -/
theorem Membered.distinct (ht : t ∉ outer) (hclear : Clear s t m) (hsound : Sound s' t) :
    Distinct { s' with building := outer } t := by
  have hmarked : t ∈ s.building := hbuilding ▸ mem_cons_self
  have hm' := hmemb.model
  have hnamed : s'.types.NamesProperties := hmemb.orderly.named
  have hbased : s'.types.Based := hmemb.orderly.based
  cases hbase' : m'.base with
  | none => exact .alone hnamed hm' hbase' ht
  | some base =>
    have hbase : m.base = some base := hmemb.base ▸ hbase'
    have hinh := hmemb.inherited hbase
    have hcomp : ∀ k ∈ s.types.baseChain base, k ∉ s.building :=
      hsound.settled _ hinh (by simp [reading]) .refl
    obtain ⟨mb, hmb⟩ := h.based hm hbase
    have hsteady := Steady.ofFrame hmemb.frame hmarked
    have hsub := hmemb.frame.readings_subset
    have hsound₀ := hsound.before hsteady.grows hsub
    have hsoundBase := (hsound.read hinh (by simp [reading])
      (mem_baseChain_self s.types base)).before hsteady.grows hsub
    have hchain := hsteady.baseChain h.based hmb hcomp
    have hnames := hsteady.inheritedNames h.based h.named hmb hcomp
    have hforward : t ∉ s'.types.baseChain base := fun hmem => hcomp t (hchain ▸ hmem) hmarked
    refine ⟨?_, fun {m₁ base₁} hm₁ hbase₁ => ?_, ?_⟩
    · change ∀ k ∈ s'.types.baseChain t, k ∉ outer
      rw [baseChain_of_base hbased hm' hbase' hforward, hchain]
      refine forall_mem_cons.mpr ⟨ht, fun k hk hmem => hcomp k hk ?_⟩
      exact hbuilding ▸ mem_cons_of_mem _ hmem
    · obtain rfl := mem_unique hm' hm₁
      obtain rfl := mem_unique hbase' hbase₁
      exact hforward
    · change (s'.types.inheritedNames t).Nodup
      rw [inheritedNames_of_base hbased hm' hbase' hforward, hnames, ownNames_eq_keys hnamed hm']
      have hbaseNot : base ∉ s.building := hcomp base (mem_baseChain_self _ _)
      refine nodup_append.mpr ⟨m'.properties.distinct, (h.distinct hsoundBase hmb hbaseNot).nodup,
        fun name hname other hother heq => ?_⟩
      subst heq
      rcases hmemb.names hbase name hname with hold | hnot
      · rcases hclear hsound₀ hbase name hold with ⟨hnot, -⟩ | ⟨r, hr, hreader, huse, hcopied⟩
        · exact hnot hother
        · exact hsound.disjoint r (hsub hr) _ hinh hreader huse rfl (hreader ▸ .refl)
            (mem_propertyNames hsteady.grows hcopied) (mem_propertyNames hsteady.grows hother)
      · exact hnot hother

/-- A model with all its members is complete. -/
theorem Membered.completed (hclear : Clear s t m) (ht : t ∉ outer) (hplaced : Placed env s' t) :
    Orderly env { s' with building := outer } :=
  hmemb.orderly.completed (hmemb.frame.building.trans hbuilding) hplaced
    fun hsound => hmemb.distinct h hm hbuilding ht hclear hsound

end

/-- Decorators come last. -/
theorem Membered.finished {s'' : State} (hmemb : Membered env t owner members s m s' m')
    (hfin : Finished finish t s' s'') :
    Membered env t owner members s m s'' m' := by
  have haside := Aside.finished hfin
  exact { hmemb with
    frame := hmemb.frame.trans (.ofFinished hfin)
    orderly := hmemb.orderly.aside haside
    model := (haside.model t).trans hmemb.model
    inherited := fun hbase => haside.readings ▸ hmemb.inherited hbase
    spreads := haside.readings ▸ hmemb.spreads }

/-! ### Heritage -/

/-- Nothing has been read for the model yet. -/
def Unread (s : State) (t : TypeId) : Prop := ∀ r ∈ s.readings, r.reader ≠ t

theorem Unread.frame (h : Unread s t) (hframe : Frame none s s') (ht : s.types.Has t) :
    Unread s' t := by
  intro r hr
  obtain ⟨new, heq, hnew⟩ := hframe.readings
  rw [heq] at hr
  rcases mem_append.mp hr with hr | hr
  · rintro rfl
    rcases hnew r hr with hnone | hnot
    · simp at hnone
    · exact hnot ht
  · exact h r hr

/-- The base of a model can be set as long as nothing has been read for it. -/
theorem Orderly.setBase (h : Orderly env s) (ht : t ∈ s.building) (hunread : Unread s t)
    (hm : s.types.model? t = some m) (hbase : m.base = none) (base : Option TypeId)
    (hbased : ∀ {b}, base = some b → ∃ mb, s.types.model? b = some mb) :
    Frame (some t) s (s.modifyTypes fun types => types.modifyModel t fun m => { m with base }) ∧
      Orderly env (s.modifyTypes fun types => types.modifyModel t fun m => { m with base }) := by
  have hgrown : m.Grown { m with base } := ⟨rfl, id, fun hsome => by simp [hbase] at hsome⟩
  refine ⟨modifyModel_frame hm hgrown, h.modifyModel ht hm hgrown
    (fun entry hentry => h.named hm entry hentry) hbased ?_⟩
  rintro ⟨r, hr, heq⟩
  exact absurd heq (hunread r hr)

theorem model?_setBase (hm : s.types.model? t = some m) (base : Option TypeId) :
    (s.types.modifyModel t fun m => { m with base }).model? t = some { m with base } := by
  rw [model?_modifyModel, if_pos rfl, hm, map_some]

section

variable (hcheck : Relates env (fun s s' => Orderly env s → Orderly env s') check)

include hcheck

/-- A check that the construction calls for leaves the model alone. -/
theorem call_heritage {n : NodeId} (h : Orderly env s) (ht : t ∈ s.building) (hunread : Unread s t)
    (hm : s.types.model? t = some m) (hrun : check n env s = some (source, s')) :
    Frame none s s' ∧ Orderly env s' ∧ t ∈ s'.building ∧ Unread s' t ∧
      s'.types.model? t = some m := by
  have hframe := hcheck.framed.frame hrun
  refine ⟨hframe, hcheck.related hrun h, hframe.building ▸ ht, hunread.frame hframe
    (has_of_model hm), model?_eq_some_iff.mpr ?_⟩
  exact hframe.shape (by simp) (model?_eq_some_iff.mp hm) rfl

/-- The clause of a base sets nothing but the base. -/
theorem checkBase_heritage (h : Orderly env s) (ht : t ∈ s.building) (hunread : Unread s t)
    (hm : s.types.model? t = some m) (hbase : m.base = none)
    (hrun : checkBase check t place env s = some (u, s')) :
    Frame (some t) s s' ∧ Orderly env s' ∧ Unread s' t ∧ ∃ m', s'.types.model? t = some m' ∧
      m'.properties = m.properties ∧ (place.isNone = true → m'.base = none) := by
  cases place with
  | none =>
    obtain ⟨-, rfl⟩ := run_pure.mp hrun
    exact ⟨.refl _ _, h, hunread, m, hm, rfl, fun _ => hbase⟩
  | some n =>
    obtain ⟨source, s₁, hsource, hrun⟩ := run_bind.mp hrun
    obtain ⟨base, s₂, hadmit, hset⟩ := run_bind.mp hrun
    obtain rfl := run_modify.mp hset
    obtain ⟨hframe₁, h₁, ht₁, hunread₁, hm₁⟩ := call_heritage hcheck h ht hunread hm hsource
    have hadm : Aside s₁ s₂ ∧ Frame none s₁ s₂ ∧
        ∀ {b}, base = some b → ∃ mb, s₁.types.model? b = some mb := by
      rcases admitHeritage_cases hadmit with ⟨rfl, rfl, -, y, hy⟩ | ⟨rfl, hquiet, -⟩
      · refine ⟨.refl _, .refl _ _, fun {b} hb => ?_⟩
        exact ⟨y, Option.some.inj hb ▸ model?_eq_some_iff.mpr hy⟩
      · exact ⟨.quiet hquiet, .ofQuiet hquiet, fun {b} hb => by simp at hb⟩
    obtain ⟨haside, hframe₂, hbased⟩ := hadm
    have hm₂ : s₂.types.model? t = some m := (haside.model t).trans hm₁
    have hunread₂ := hunread₁.frame hframe₂ (has_of_model hm₁)
    obtain ⟨hframe₃, h₃⟩ := (h₁.aside haside).setBase (haside.building ▸ ht₁) hunread₂ hm₂ hbase
      base fun {b} hb => by rw [haside.model]; exact hbased hb
    exact ⟨(hframe₁.mono _).trans ((hframe₂.mono _).trans hframe₃), h₃, hunread₂, _,
      model?_setBase hm₂ base, rfl, fun hnone => by simp at hnone⟩

end

/-- What becomes of a model that copies another one, and of the reading of that. -/
structure Copies (env : Environment) (t : TypeId) (r : Reading) (withBase : Bool) (s s' : State)
    (m' : ModelType) : Prop where
  frame : Frame (some t) s s'
  orderly : Orderly env s'
  model : s'.types.model? t = some m'
  taken : s'.diagnostics.toList = [] → r.Taken s' m'
  names : m'.properties.keys = [] ∨ ∃ y, s.types.model? r.source = some y ∧
    m'.properties.keys ⊆ s.types.propertyNames r.properties ∧
    (withBase = true → m'.base = y.base)

section

variable (h : Orderly env s) (ht : t ∈ s.building) (hunread : Unread s t)
  (hm : s.types.model? t = some m) (hempty : m.properties = .empty)
  (hbase : withBase = true → m.base = none)

include h ht hunread hm hempty hbase

/-- A model is copied with its base or without. -/
theorem copyModel_copies {y : ModelType} (hy : s.types.model? source = some y)
    (hrun : copyModel t source node finish withBase env s = some (answer, s')) :
    ∃ m', Copies env t (s.reading t node (.copied withBase) source) withBase s s' m' := by
  have hprops : (s.reading t node (.copied withBase) source).properties =
      y.properties.values := by
    simp [reading, ReadingUse.models, ownProperties, hy]
  simp only [copyModel, getTypes_bind, hy] at hrun
  obtain ⟨_, s₁, hinto, hrun⟩ := run_bind.mp hrun
  obtain ⟨hfills, hreads⟩ := copyInto_fills h ht hm
    (hprops ▸ allProperties_reading h.named node _ source) hinto
  rw [← hprops] at hfills
  obtain ⟨m₁, hm₁, -⟩ := hfills.frame.grows.model hm
  have hkeys : m₁.properties.keys ⊆
      s.types.propertyNames (s.reading t node (.copied withBase) source).properties := by
    intro name hname
    rcases hfills.upper hm hm₁ name hname with hold | ⟨hnew, -⟩
    · simp [hempty] at hold
    · exact hnew
  cases withBase with
  | false =>
    simp only [Bool.false_eq_true, if_false, run_pure] at hrun
    obtain ⟨-, rfl⟩ := hrun
    exact ⟨m₁, hfills.frame, hfills.orderly, hm₁, fun hnil => taken_of_copied h ht hy hfills.frame
      (hfills.lower hnil hm₁) (fun huse => by simp at huse),
      Or.inr ⟨y, hy, hkeys, fun hwith => by simp at hwith⟩⟩
  | true =>
    simp only [if_true] at hrun
    obtain ⟨_, hset, -⟩ := run_bind_pure.mp hrun
    obtain rfl := run_modify.mp hset
    have hunread₁ : Unread s₁ t := fun r hr => hunread r (hreads ▸ hr)
    have hbase₁ : m₁.base = none := (hfills.base hm hm₁).trans (hbase rfl)
    obtain ⟨hframe₂, h₂⟩ := hfills.orderly.setBase (hfills.frame.building ▸ ht) hunread₁ hm₁ hbase₁
      y.base fun {b} hb => by
        obtain ⟨mb, hmb⟩ := h.based hy hb
        obtain ⟨mb', hmb', -⟩ := hfills.frame.grows.model hmb
        exact ⟨mb', hmb'⟩
    have hframe := hfills.frame.trans hframe₂
    have hlower := fun hnil => hfills.lower hnil hm₁
    exact ⟨{ m₁ with base := y.base }, hframe, h₂, model?_setBase hm₁ y.base,
      fun hnil => taken_of_copied h ht hy hframe (hlower hnil) fun _ => rfl,
      Or.inr ⟨y, hy, hkeys, fun _ => rfl⟩⟩

/-- What is no model is not copied. -/
theorem copyHeritage_copies
    (hrun : copyHeritage t source node finish withBase env s = some (answer, s')) :
    ∃ m', Copies env t (s.reading t node (.copied withBase) source) withBase s s' m' := by
  obtain ⟨admitted, s₁, hadmit, hcopy⟩ := run_bind.mp hrun
  rcases admitHeritage_cases hadmit with ⟨rfl, rfl, -, y, hy⟩ | ⟨rfl, hquiet, hother, -⟩
  · exact copyModel_copies h ht hunread hm hempty hbase (model?_eq_some_iff.mpr hy) hcopy
  · obtain ⟨-, rfl⟩ := run_pure.mp hcopy
    refine ⟨m, .ofQuiet hquiet, h.aside (.quiet hquiet), by rw [hquiet.types, hm], fun hnil => ?_,
      Or.inl (by simp [hempty])⟩
    rcases hother hnil with hshape | rfl
    · exact taken_of_other (by rw [hquiet.types]; exact has_of_shape hshape)
        (by rw [hquiet.types]; exact model?_eq_none_of_isModel hshape rfl)
    · exact taken_of_other (by rw [hquiet.types]; exact has_of_shape h.error)
        (by rw [hquiet.types]; exact model?_eq_none_of_isModel h.error rfl)

end

/-- Names that are copied together with a base are not names of the base. -/
theorem Copies.clear (h : Orderly env s) (ht : t ∈ s.building)
    (hcopies : Copies env t (s.reading t node (.copied withBase) source) withBase s s' m') :
    Clear { s' with readings := s.reading t node (.copied withBase) source :: s'.readings } t m' := by
  intro hsound base hbase name hname
  rcases hcopies.names with hnil | ⟨y, hy, hkeys, hsame⟩
  · simp [hnil] at hname
  · cases withBase with
    | false =>
      exact .inr ⟨_, mem_cons_self, rfl, rfl,
        mem_propertyNames hcopies.frame.grows (hkeys hname)⟩
    | true =>
      have hy : s.types.model? source = some y := hy
      have hsettled := hsound.settled _ (.head _) (by simp [reading]) .refl
      have hsource := Sound.read (r := s.reading t node (.copied true) source) hsound
        mem_cons_self (by simp [reading]) (mem_singleton_self source)
      have hcomp : source ∉ s.building := hsettled source (.head _)
      have hsub := subset_cons_of_subset (s.reading t node (.copied true) source)
        hcopies.frame.readings_subset
      have hdist := h.distinct (hsource.before hcopies.frame.grows hsub) hy hcomp
      have hybase : y.base = some base := (hsame rfl).symm.trans hbase
      have hforward := hdist.forward hy hybase
      obtain ⟨mb, hmb⟩ := h.based hy hybase
      have hbaseComplete : ∀ k ∈ s.types.baseChain base, k ∉ s.building := fun k hk =>
        hdist.complete k (baseChain_of_base h.based hy hybase hforward ▸ mem_cons_of_mem _ hk)
      have hsteady := Steady.ofFrame hcopies.frame ht
      refine .inl ⟨?_, hsteady.complete h.based hmb hbaseComplete⟩
      change name ∉ s'.types.inheritedNames base
      have hnodup := hdist.nodup
      rw [inheritedNames_of_base h.based hy hybase hforward, nodup_append] at hnodup
      rw [hsteady.inheritedNames h.based h.named hmb hbaseComplete]
      have hown : name ∈ s.types.ownNames source := by
        have hcopied := hkeys hname
        simp only [reading, ReadingUse.models, flatMap_singleton] at hcopied
        exact hcopied
      exact fun hmem => hnodup.2.2 name hown name hmem rfl

/-- Copied names stay clear of inherited ones. -/
theorem Clear.steady (hclear : Clear s t m) (h : Orderly env s) (hm : s.types.model? t = some m)
    (hsteady : Steady s s') (hreads : s.readings ⊆ s'.readings) (hbase : m'.base = m.base)
    (hprops : m'.properties = m.properties) : Clear s' t m' := by
  intro hsound base hbase' name hname
  rw [hbase] at hbase'
  rw [hprops] at hname
  refine (hclear (hsound.before hsteady.grows hreads) hbase' name hname).imp
    (fun hnot => ?_) fun hcopied => ?_
  · obtain ⟨hnot, hcomp⟩ := hnot
    obtain ⟨mb, hmb⟩ := h.based hm hbase'
    rw [hsteady.inheritedNames h.based h.named hmb hcomp]
    exact ⟨hnot, hsteady.complete h.based hmb hcomp⟩
  · obtain ⟨r, hr, hreader, huse, hin⟩ := hcopied
    exact ⟨r, hreads hr, hreader, huse, mem_propertyNames hsteady.grows hin⟩

section

variable (hwf : env.tree.WellFormed)
  (hcheck : Relates env (fun s s' => Orderly env s → Orderly env s') check)

include hcheck

/-- What a model is like is copied and noted. -/
theorem checkCopied_heritage (h : Orderly env s) (ht : t ∈ s.building) (hunread : Unread s t)
    (hm : s.types.model? t = some m) (hempty : m.properties = .empty)
    (hbase : withBase = true → m.base = none)
    (hrun : checkCopied check t finish withBase place env s = some (answer, s')) :
    Frame (some t) s s' ∧ Orderly env s' ∧ (∃ m', s'.types.model? t = some m' ∧ Clear s' t m') ∧
      ∀ target, place = some target →
        ∃ r ∈ s'.readings, r.reader = t ∧ r.place = target ∧ r.use = .copied withBase := by
  cases place with
  | none =>
    obtain ⟨-, rfl⟩ := run_pure.mp hrun
    exact ⟨.refl _ _, h, ⟨m, hm, fun _ _ _ name hname => by simp [hempty] at hname⟩, by simp⟩
  | some n =>
    obtain ⟨source, s₁, hsource, hrun⟩ := run_bind.mp hrun
    simp only [get_bind] at hrun
    obtain ⟨decorators, s₂, hcopy, hrun⟩ := run_bind.mp hrun
    obtain ⟨_, hnote, -⟩ := run_bind_pure.mp hrun
    obtain rfl := run_modify.mp hnote
    obtain ⟨hframe₁, h₁, ht₁, hunread₁, hm₁⟩ := call_heritage hcheck h ht hunread hm hsource
    obtain ⟨m₂, hcopies⟩ := copyHeritage_copies h₁ ht₁ hunread₁ hm₁ hempty hbase hcopy
    have hnoted : Fills env t [] [] s₂ _ := .note hcopies.orderly
      (r := s₁.reading t n (.copied withBase) source) rfl hcopies.model
      fun hnil _ => hcopies.taken hnil
    refine ⟨(hframe₁.mono _).trans (hcopies.frame.trans hnoted.frame), hnoted.orderly,
      ⟨m₂, hcopies.model, hcopies.clear h₁ ht₁⟩, fun target htarget => ?_⟩
    exact ⟨_, mem_cons_self, rfl, Option.some.inj htarget, rfl⟩

include hwf

/-- Heritage and decorators come before the members. -/
theorem buildModel_membered (h : Orderly env s) (ht : t ∈ s.building) (hunread : Unread s t)
    (hm : s.types.model? t = some m) (hempty : m.properties = .empty) (hbase : m.base = none)
    (hrun : buildModel check node parts t env s = some ((), s')) :
    ∃ s₁ m₁ m', Frame (some t) s s₁ ∧ Orderly env s₁ ∧ s₁.types.model? t = some m₁ ∧
      Clear s₁ t m₁ ∧ Membered env t node parts.members s₁ m₁ s' m' ∧
      ∀ target, parts.copied = some target → ∃ r ∈ s₁.readings, r.reader = t ∧
        r.place = target ∧ r.use = .copied parts.base.isNone := by
  obtain ⟨_, s₁, hextend, hrun⟩ := run_bind.mp hrun
  simp only [shouldFinish_bind] at hrun
  obtain ⟨copied, s₂, hcopied, hrun⟩ := run_bind.mp hrun
  obtain ⟨decorators, s₃, hdecs, hrun⟩ := run_bind.mp hrun
  simp only [modify_bind] at hrun
  obtain ⟨_, s₄, hmems, hfinish⟩ := run_bind.mp hrun
  obtain ⟨hframe₁, h₁, hunread₁, m₁, hm₁, hprops₁, hbase₁⟩ :=
    checkBase_heritage hcheck h ht hunread hm hbase hextend
  have ht₁ : t ∈ s₁.building := hframe₁.building ▸ ht
  obtain ⟨hframe₂, h₂, ⟨m₂, hm₂, hclear₂⟩, hread⟩ := checkCopied_heritage hcheck h₁ ht₁
    hunread₁ hm₁ (hprops₁.trans hempty) hbase₁ hcopied
  have hleads : Leads env check _ none s₂.types.size s₂ [] s₃ (decoratorTypes decorators ⊆ ·) :=
    checkDecorators_leads hwf rfl hdecs
  have hframe₃ := hleads.frame hcheck.framed
  have h₃ := (Stepwise.orderly none).ofWork hcheck hleads h₂
  have hm₃ : s₃.types.model? t = some m₂ := model?_eq_some_iff.mpr
    (hframe₃.shape (by simp) (model?_eq_some_iff.mp hm₂) rfl)
  have hgrown : m₂.Grown { m₂ with decorators := copied ++ decorators } := ⟨rfl, id, id⟩
  have hframe₄ := modifyModel_frame (f := fun m => { m with decorators := copied ++ decorators })
    hm₃ hgrown
  have ht₂ : t ∈ s₂.building := hframe₂.building ▸ ht₁
  have ht₃ : t ∈ s₃.building := hframe₃.building ▸ ht₂
  have h₄ := h₃.modifyModel (f := fun m => { m with decorators := copied ++ decorators }) ht₃ hm₃
    hgrown (fun entry hentry => h₃.named hm₃ entry hentry) (fun hsome => h₃.based hm₃ hsome)
    fun _ => rfl
  have hlater := (hframe₃.mono (some t)).trans hframe₄
  have hsub := hlater.readings_subset
  have hm₄ : (s₃.types.modifyModel t fun m =>
      { m with decorators := copied ++ decorators }).model? t =
        some { m₂ with decorators := copied ++ decorators } := by
    rw [model?_modifyModel, if_pos rfl, hm₃, map_some]
  obtain ⟨m', hmemb⟩ := checkMembers_membered hwf hcheck h₄ ht₃ hm₄ hmems
  refine ⟨_, _, m', hframe₁.trans (hframe₂.trans hlater), h₄, hm₄,
    hclear₂.steady h₂ hm₂ (.ofFrame hlater ht₂) hsub rfl rfl,
    hmemb.finished (finishIf_finished hfinish), fun target htarget => ?_⟩
  obtain ⟨r, hr, hplace⟩ := hread target htarget
  exact ⟨r, hsub hr, hplace⟩

/-- The invariant survives the construction of a model statement. -/
theorem buildModel_orderly {key : List TypeId} (h : Orderly env s)
    (hkind : env.tree.kind? node = some (.modelStatement parts)) (hempty : m.properties = .empty)
    (hbase : m.base = none) (hrun : buildModel check node parts s.types.nextId env
      (s.opened node key (.model m) [s.types.nextId]) = some ((), s')) :
    Orderly env { s' with building := s.building } := by
  have hopened : Orderly env (s.opened node key (.model m) [s.types.nextId]) :=
    h.push (by simp [hempty, OrderedMap.empty]) hbase rfl rfl rfl (.inr rfl)
  have hfresh : ¬ s.types.Has s.types.nextId := not_has_nextId
  have hunread : Unread (s.opened node key (.model m) [s.types.nextId]) s.types.nextId := by
    rintro r hr heq
    exact hfresh (heq ▸ h.readers r hr)
  obtain ⟨s₁, m₁, m', hframe, h₁, hm₁, hclear, hmemb, hread⟩ := buildModel_membered hwf hcheck
    hopened (.head _) hunread
    (model?_eq_some_iff.mpr (opened_shape _ _ _ _)) hempty hbase hrun
  refine hmemb.completed h₁ hm₁ hframe.building hclear (fun hmem => hfresh (h.marked _ hmem)) ?_
  have hnode : s'.types.node? s.types.nextId = some node := by
    have hnew := Table.get?_push_nextId s.types ⟨some node, .model m⟩
    rw [(hframe.trans hmemb.frame).grows.node ⟨_, hnew⟩]
    exact congrArg (bind · TypeRecord.node) hnew
  have hparts : ∀ {node' parts'}, s'.types.node? s.types.nextId = some node' →
      env.tree.kind? node' = some (.modelStatement parts') → parts' = parts := by
    intro node' parts' hnode' hkind'
    obtain rfl := mem_unique hnode hnode'
    simpa using hkind'.symm.trans hkind
  constructor
  · intro node' member target parts' hnode' hkind' hmember htarget
    exact hmemb.spreads member (hparts hnode' hkind' ▸ hmember) target htarget
  · intro node' target parts' hnode' hkind' htarget
    obtain rfl := hparts hnode' hkind'
    obtain ⟨r, hr, hplace⟩ := hread target htarget
    exact ⟨r, hmemb.frame.readings_subset hr, hplace⟩

/-- The invariant survives the construction of a model expression. -/
theorem expression_orderly (h : Orderly env s)
    (hkind : env.tree.kind? node = some (.modelExpression members))
    (hrun : checkMembers check s.types.nextId node members env (s.drafted node) = some ((), s')) :
    Orderly env { s' with building := s.building } := by
  have hopened : Orderly env (s.drafted node) :=
    h.push (m := .anonymous) (by simp [ModelType.anonymous, OrderedMap.empty]) rfl rfl rfl rfl
      (.inr rfl)
  have hm : model? (Table.push s.types ⟨some node, .model .anonymous⟩) s.types.nextId =
      some .anonymous := model?_push_nextId rfl
  obtain ⟨m', hmemb⟩ := checkMembers_membered hwf hcheck hopened mem_cons_self hm hrun
  have hnode : s'.types.node? s.types.nextId = some node := by
    have hnew := Table.get?_push_nextId s.types ⟨some node, .model .anonymous⟩
    rw [hmemb.frame.grows.node ⟨_, hnew⟩]
    exact congrArg (bind · TypeRecord.node) hnew
  refine hmemb.completed hopened hm rfl (fun _ _ hbase => by simp [ModelType.anonymous] at hbase)
    (fun hmem => not_has_nextId (h.marked _ hmem)) (.of_other hnode ?_)
  simp [hkind]

end

/-- The invariant survives all checks. -/
theorem Evolution.orderly (hwf : env.tree.WellFormed) :
    Evolution env fun s s' => Orderly env s → Orderly env s' := by
  refine .ofAside hwf Stepwise.orderly (fun haside h => h.aside haside) ?_ ?_ ?_
  · intro check s reading shape _ _ hshape hnot h
    refine h.note (has_of_shape hshape) fun _ _ m hm => ?_
    simp [model?_eq_none_of_isModel hshape hnot] at hm
  · intro check node s s' key parts m hcheck hkind hempty hbase hrun h
    exact buildModel_orderly hwf hcheck h hkind hempty hbase hrun
  · intro check node s s' members hcheck hkind hrun h
    exact expression_orderly hwf hcheck h hkind hrun

/-! ### Sessions -/

/-- Before anything is checked there are no models. -/
theorem Blank.orderly {bound : Bindings} {merged : Bool} (h : Blank env bound merged s) :
    Orderly env s := by
  have hnone : ∀ {id m}, ¬ s.types.model? id = some m := by
    intro id m hm
    rcases h.shape (model?_eq_some_iff.mp hm) with hshape | ⟨n, hshape⟩ <;> simp at hshape
  refine ⟨by rw [shape?, h.error]; rfl, fun hm => absurd hm hnone,
    fun hm => absurd hm hnone, ?_, ?_, ?_, fun hm => absurd hm hnone, fun _ hm => absurd hm hnone⟩
  · rw [h.building]
    simp
  · rw [h.readings]
    simp
  · rw [h.readings]
    simp

/-- The invariant holds in all states of a session. -/
theorem Reached.orderly (h : Reached program s) :
    Orderly program.environment s := by
  have hwf := h.wellFormed
  obtain ⟨_, merged, s₁, hblank, hchk⟩ := h.checked
  exact (Evolution.orderly hwf).checked hwf hchk hblank.orderly

/-- Between calls no model is under construction. -/
theorem Reached.building (h : Reached program s) : s.building = [] := by
  have hwf := h.wellFormed
  obtain ⟨_, merged, s₁, hblank, hchk⟩ := h.checked
  exact (hchk.frame hwf).building.trans hblank.building

end ApiSchema.Checking
