import ApiSchema.Proofs.Models.Aside

/-!
# Readings of models

A model that is built reads others: its base, for the names it must not use again, and those that it
copies. What is read of a model that is complete is all there will ever be of it. The invariant of
this module says what becomes of the readings: the properties that were copied are there, and the
names of a complete model are distinct, if what it read for them was complete and what it copied
does not collide with what it extends.
-/

namespace ApiSchema.Checking

open TypeTable ModelType Option List

variable {env : Environment} {s s' : State} {id t k source : TypeId} {m m' : ModelType}
  {r : Reading} {types types' : TypeTable} {f : ModelType → ModelType}

/-! ### What readings come to -/

/-- All models that were read were complete. -/
def Reading.Settled (r : Reading) : Prop := ∀ k ∈ r.models, k ∉ r.unfinished

instance (r : Reading) : Decidable r.Settled :=
  inferInstanceAs (Decidable (∀ k ∈ r.models, k ∉ r.unfinished))

/-- What was read is what there is, and the models are complete. -/
structure Reading.Upheld (r : Reading) (s : State) : Prop where
  models : r.models = r.use.models s.types r.source
  properties : r.properties = r.models.flatMap s.types.ownProperties
  complete : ∀ k ∈ r.models, k ∉ s.building

/-- A model has taken over what it read to copy it. -/
structure Reading.Taken (r : Reading) (s : State) (m : ModelType) : Prop where
  source : s.types.Has r.source
  names {y : ModelType} : s.types.model? r.source = some y → ∀ p ∈ r.properties,
    ∃ property, s.types.property? p = some property ∧ property.name ∈ m.properties.keys
  upheld {y : ModelType} : s.types.model? r.source = some y → r.Settled → r.Upheld s
  base {y : ModelType} : s.types.model? r.source = some y → r.use = .copied true → r.Settled →
    m.base = y.base

/-- A model draws on those that it reads for the names it inherits or to be like them, on those that
these draw on, and so on. -/
def Draws (s : State) : TypeId → TypeId → Prop :=
  Relation.ReflTransGen fun a b => ∃ r ∈ s.readings, r.reader = a ∧ r.use ≠ .spread ∧ b ∈ r.models

/-- What a model draws on was complete when it was read, and where a model both extends another one
and copies one the names do not collide. -/
structure Sound (s : State) (t : TypeId) : Prop where
  settled : ∀ r ∈ s.readings, r.use ≠ .spread → Draws s t r.reader → r.Settled
  disjoint : ∀ r ∈ s.readings, ∀ q ∈ s.readings, r.reader = q.reader → r.use = .copied false →
    q.use = .inherited → Draws s t r.reader →
    (s.types.propertyNames r.properties).Disjoint (s.types.propertyNames q.properties)

/-- The names of a model and of its bases are distinct; all these are complete. -/
structure Distinct (s : State) (id : TypeId) : Prop where
  complete : ∀ k ∈ s.types.baseChain id, k ∉ s.building
  forward {m : ModelType} {base : TypeId} : s.types.model? id = some m → m.base = some base →
    id ∉ s.types.baseChain base
  nodup : (s.types.inheritedNames id).Nodup

/-- What a model statement spreads and copies has been read for its type. -/
structure Placed (env : Environment) (s : State) (id : TypeId) : Prop where
  spreads {node member target : NodeId} {parts : ModelNode} : s.types.node? id = some node →
    env.tree.kind? node = some (.modelStatement parts) → member ∈ parts.members →
    env.tree.kind? member = some (.modelSpreadProperty target) →
    ∃ r ∈ s.readings, r.reader = id ∧ r.place = target ∧ r.use = .spread
  copied {node target : NodeId} {parts : ModelNode} : s.types.node? id = some node →
    env.tree.kind? node = some (.modelStatement parts) → parts.copied = some target →
    ∃ r ∈ s.readings, r.reader = id ∧ r.place = target ∧ r.use = .copied parts.base.isNone

/-- A type that is not of a model statement has nothing to read. -/
theorem Placed.of_other {n : NodeId} (hnode : s.types.node? id = some n)
    (hkind : ∀ parts, env.tree.kind? n ≠ some (.modelStatement parts)) : Placed env s id :=
  ⟨fun hn hparts => absurd (mem_unique hnode hn ▸ hparts) (hkind _),
    fun hn hparts => absurd (mem_unique hnode hn ▸ hparts) (hkind _)⟩

/-- The invariant of all checks. -/
structure Orderly (env : Environment) (s : State) : Prop where
  error : s.types.shape? errorType = some (.intrinsic errorName)
  named : s.types.NamesProperties
  based : s.types.Based
  marked : ∀ id ∈ s.building, s.types.Has id
  readers : ∀ r ∈ s.readings, s.types.Has r.reader
  taken : s.diagnostics.toList = [] → ∀ r ∈ s.readings, r.use ≠ .inherited →
    ∀ {m : ModelType}, s.types.model? r.reader = some m → r.Taken s m
  placed {id : TypeId} {m : ModelType} : s.types.model? id = some m → id ∉ s.building →
    Placed env s id
  distinct {id : TypeId} {m : ModelType} : Sound s id → s.types.model? id = some m →
    id ∉ s.building → Distinct s id

/-! ### Steady changes -/

/-- Between the states complete models were left alone, and they stay complete. -/
structure Steady (s s' : State) : Prop where
  grows : s.types.Grows s'.types
  model {id : TypeId} {m : ModelType} : s.types.model? id = some m → id ∉ s.building →
    s'.types.model? id = some m
  building {id : TypeId} : s.types.Has id → id ∉ s.building → id ∉ s'.building
  diagnostics : s.diagnostics.toList <+: s'.diagnostics.toList

namespace Steady

theorem ofAside (h : Aside s s') : Steady s s' where
  grows := h.grows
  model hm _ := (h.model _).trans hm
  building _ hnot := h.building ▸ hnot
  diagnostics := h.diagnostics

/-- A model under construction may change. -/
theorem ofFrame (h : Frame (some t) s s') (ht : t ∈ s.building) : Steady s s' where
  grows := h.grows
  model hm hnot := model?_eq_some_iff.mpr (h.shape
    (fun heq => hnot (Option.some.inj heq ▸ ht)) (model?_eq_some_iff.mp hm) rfl)
  building _ hnot := h.building ▸ hnot
  diagnostics := h.diagnostics

variable (h : Steady s s')

include h

section

variable (hbased : s.types.Based) (hm : s.types.model? id = some m)
  (hcomp : ∀ k ∈ s.types.baseChain id, k ∉ s.building)

include hbased hm hcomp

/-- The models along a chain that is complete are left alone. -/
theorem model_of_mem (hk : k ∈ s.types.baseChain id) :
    s'.types.model? k = s.types.model? k := by
  obtain ⟨mk, hmk⟩ := exists_model_of_mem_baseChainFrom hbased hm hk
  rw [hmk]
  exact h.model hmk (hcomp k hk)

theorem baseChain :
    s'.types.baseChain id = s.types.baseChain id :=
  baseChain_congr hbased (has_of_model hm) h.grows.size_le
    fun _ hk => h.model_of_mem hbased hm hcomp hk

end

theorem inheritedNames (hbased : s.types.Based) (hnamed : s.types.NamesProperties)
    (hm : s.types.model? id = some m) (hcomp : ∀ k ∈ s.types.baseChain id, k ∉ s.building) :
    s'.types.inheritedNames id = s.types.inheritedNames id :=
  inheritedNames_congr hbased hnamed h.grows.size_le h.grows.property hm
    fun _ hk => h.model_of_mem hbased hm hcomp hk

theorem complete (hbased : s.types.Based) (hm : s.types.model? id = some m)
    (hcomp : ∀ k ∈ s.types.baseChain id, k ∉ s.building) :
    ∀ k ∈ s'.types.baseChain id, k ∉ s'.building := by
  rw [h.baseChain hbased hm hcomp]
  intro k hk
  obtain ⟨mk, hmk⟩ := exists_model_of_mem_baseChainFrom hbased hm hk
  exact h.building (has_of_model hmk) (hcomp k hk)

/-- The models that are read stay the same, if they are complete. -/
theorem models (hbased : s.types.Based) (hm : s.types.model? source = some m) (use : ReadingUse)
    (hcomp : ∀ k ∈ use.models s.types source, k ∉ s.building) :
    use.models s'.types source = use.models s.types source := by
  cases use with
  | inherited | spread => exact h.baseChain hbased hm hcomp
  | copied => rfl

end Steady

/-- Only models are read of a model. -/
theorem ReadingUse.exists_model (hbased : types.Based) (hm : types.model? source = some m)
    {use : ReadingUse} (hk : k ∈ use.models types source) :
    ∃ mk, types.model? k = some mk := by
  cases use with
  | inherited | spread => exact exists_model_of_mem_baseChainFrom hbased hm hk
  | copied => exact ⟨m, mem_singleton.mp hk ▸ hm⟩

theorem ReadingUse.mem_models (use : ReadingUse) (types : TypeTable) (source : TypeId) :
    source ∈ use.models types source := by
  cases use with
  | inherited | spread => exact mem_baseChain_self types source
  | copied => exact mem_singleton_self source

/-- What there is of complete models stays. -/
theorem Reading.Upheld.steady (h : r.Upheld s) (hsteady : Steady s s') (hbased : s.types.Based)
    (hm : s.types.model? r.source = some m) : r.Upheld s' := by
  obtain ⟨hmodels, hprops, hcomp⟩ := h
  have hread : ∀ k ∈ r.models, ∃ mk, s.types.model? k = some mk := fun k hk =>
    ReadingUse.exists_model hbased hm (hmodels ▸ hk)
  refine ⟨?_, ?_, fun k hk => ?_⟩
  · rw [hsteady.models hbased hm r.use (hmodels ▸ hcomp)]
    exact hmodels
  · rw [hprops]
    refine flatMap_congr fun k hk => ?_
    obtain ⟨mk, hmk⟩ := hread k hk
    rw [ownProperties, ownProperties, hmk, hsteady.model hmk (hcomp k hk)]
  · obtain ⟨mk, hmk⟩ := hread k hk
    exact hsteady.building (has_of_model hmk) (hcomp k hk)

/-- What was taken over stays, as long as the base does. -/
theorem Reading.Taken.steady (h : r.Taken s m) (hsteady : Steady s s') (hbased : s.types.Based)
    (hgrown : m.Grown m') (hbase : m'.base = m.base) : r.Taken s' m' := by
  have hmodel : ∀ {y'}, s'.types.model? r.source = some y' → ∃ y, s.types.model? r.source = some y :=
    hsteady.grows.model_of_has h.source
  refine ⟨hsteady.grows.has h.source, fun hy' p hp => ?_, fun hy' hset => ?_,
    fun {y'} hy' huse hset => ?_⟩
  · obtain ⟨y, hy⟩ := hmodel hy'
    obtain ⟨property, hprop, hname⟩ := h.names hy p hp
    exact ⟨property, hsteady.grows.property hprop, hgrown.keys_subset hname⟩
  · obtain ⟨y, hy⟩ := hmodel hy'
    exact (h.upheld hy hset).steady hsteady hbased hy
  · obtain ⟨y, hy⟩ := hmodel hy'
    have hupheld := h.upheld hy hset
    have hcomp := hupheld.complete r.source (hupheld.models ▸ r.use.mem_models s.types r.source)
    obtain rfl := mem_unique (hsteady.model hy hcomp) hy'
    rw [hbase, h.base hy huse hset]

theorem Placed.steady (h : Placed env s id) (hgrows : s.types.Grows s'.types)
    (hid : s.types.Has id) (hreads : s.readings ⊆ s'.readings) : Placed env s' id := by
  have hold := hgrows.node hid
  constructor
  · intro node member target parts hnode hkind hmember htarget
    obtain ⟨r, hr, hplace⟩ := h.spreads (hold ▸ hnode) hkind hmember htarget
    exact ⟨r, hreads hr, hplace⟩
  · intro node target parts hnode hkind htarget
    obtain ⟨r, hr, hplace⟩ := h.copied (hold ▸ hnode) hkind htarget
    exact ⟨r, hreads hr, hplace⟩

theorem Distinct.steady (h : Distinct s id) (hsteady : Steady s s') (hbased : s.types.Based)
    (hnamed : s.types.NamesProperties) (hm : s.types.model? id = some m) : Distinct s' id := by
  have hmodel := hsteady.model_of_mem hbased hm h.complete (mem_baseChain_self s.types id)
  refine ⟨hsteady.complete hbased hm h.complete, fun {m' base} hm' hbase => ?_, ?_⟩
  · obtain rfl := mem_unique hm (hmodel.symm.trans hm')
    obtain ⟨mb, hmb⟩ := hbased hm hbase
    have hforward := h.forward hm hbase
    have hchain := baseChain_of_base hbased hm hbase hforward
    have hcomp : ∀ k ∈ s.types.baseChain base, k ∉ s.building := fun k hk =>
      h.complete k (hchain ▸ mem_cons_of_mem _ hk)
    rwa [hsteady.baseChain hbased hmb hcomp]
  · rw [hsteady.inheritedNames hbased hnamed hm h.complete]
    exact h.nodup

/-- A model that extends nothing has only its own names. -/
theorem Distinct.alone (hnamed : s.types.NamesProperties) (hm : s.types.model? id = some m)
    (hbase : m.base = none) (hnot : id ∉ s.building) : Distinct s id := by
  have hless : (s.types.model? id).bind base = none := by
    rw [hm, bind_some, hbase]
  refine ⟨?_, fun {m' base} hm' hbase' => ?_, ?_⟩
  · rw [baseChain_of_base_none hless]
    exact fun k hk => mem_singleton.mp hk ▸ hnot
  · obtain rfl := mem_unique hm hm'
    simp [hbase] at hbase'
  · rw [inheritedNames_eq_flatMap, baseChain_of_base_none hless, flatMap_singleton,
      ownNames_eq_keys hnamed hm]
    exact m.properties.distinct

theorem mem_propertyNames (hgrows : types.Grows types') {properties : List TypeId} {name : String}
    (h : name ∈ types.propertyNames properties) : name ∈ types'.propertyNames properties := by
  obtain ⟨p, hp, hname⟩ := mem_filterMap.mp h
  obtain ⟨property, hprop, rfl⟩ := map_eq_some_iff.mp hname
  exact mem_filterMap.mpr ⟨p, hp, by rw [hgrows.property hprop]; rfl⟩

theorem modifyModel_frame (hm : s.types.model? t = some m) (hgrown : m.Grown (f m)) :
    Frame (some t) s (s.modifyTypes fun types => types.modifyModel t f) := by
  refine .modifyOwn fun {shape} hshape => ?_
  obtain rfl := mem_unique (model?_eq_some_iff.mp hm) hshape
  exact .model hgrown

/-- What is sound in the end was sound all along. -/
theorem Sound.before (h : Sound s' t) (hgrows : s.types.Grows s'.types)
    (hreads : s.readings ⊆ s'.readings) : Sound s t := by
  have hdraws : ∀ {k}, Draws s t k → Draws s' t k := by
    refine fun {k} hk => Relation.ReflTransGen.mono ?_ _ _ hk
    rintro a b ⟨r, hr, hread⟩
    exact ⟨r, hreads hr, hread⟩
  constructor
  · intro r hr huse hk
    exact h.settled r (hreads hr) huse (hdraws hk)
  · intro r hr q hq hreader hcopied hinh hk name hname hname'
    exact h.disjoint r (hreads hr) q (hreads hq) hreader hcopied hinh (hdraws hk)
      (mem_propertyNames hgrows hname) (mem_propertyNames hgrows hname')

/-- What a sound model reads is sound. -/
theorem Sound.read (h : Sound s r.reader) (hr : r ∈ s.readings) (huse : r.use ≠ .spread)
    (hk : k ∈ r.models) : Sound s k := by
  have hdraws : ∀ {j}, Draws s k j → Draws s r.reader j := fun hj => .head ⟨r, hr, rfl, huse, hk⟩ hj
  exact ⟨fun q hq huse hj => h.settled q hq huse (hdraws hj),
    fun q hq q' hq' hreader hcopied hinh hj => h.disjoint q hq q' hq' hreader hcopied hinh
      (hdraws hj)⟩

/-! ### The invariant -/

namespace Orderly

/-- The invariant survives steady changes. New models and models that become complete have to be
accounted for, and the base of a model that has read something does not change. -/
theorem steady (h : Orderly env s) (hsteady : Steady s s') (hnamed : s'.types.NamesProperties)
    (hbased : s'.types.Based) (hmarked : ∀ id ∈ s'.building, s'.types.Has id)
    (hreads : s'.readings = s.readings)
    (hbase : ∀ r ∈ s.readings, ∀ {m m'}, s.types.model? r.reader = some m →
      s'.types.model? r.reader = some m' → m'.base = m.base)
    (hmodels : ∀ {id m}, s'.types.model? id = some m → id ∉ s'.building →
      (∃ m₀, s.types.model? id = some m₀ ∧ id ∉ s.building) ∨
        Placed env s' id ∧ (Sound s' id → Distinct s' id)) : Orderly env s' := by
  have hsub : s.readings ⊆ s'.readings := by rw [hreads]; exact List.Subset.refl _
  refine ⟨?_, hnamed, hbased, hmarked, ?_, ?_, ?_, ?_⟩
  · obtain ⟨shape, hshape, hgrown⟩ := hsteady.grows.shape h.error
    cases hgrown
    exact hshape
  · intro r hr
    exact hsteady.grows.has (h.readers r (hreads ▸ hr))
  · intro hnil r hr huse m' hm'
    rw [hreads] at hr
    obtain ⟨m, hm⟩ := hsteady.grows.model_of_has (h.readers r hr) hm'
    obtain ⟨_, hm'', hgrown⟩ := hsteady.grows.model hm
    obtain rfl := mem_unique hm'' hm'
    have hclean := prefix_nil.mp (hnil ▸ hsteady.diagnostics)
    exact (h.taken hclean r hr huse hm).steady hsteady h.based hgrown
      (hbase r hr hm hm')
  · intro id m hm hnot
    rcases hmodels hm hnot with ⟨m₀, hm₀, hold⟩ | ⟨hplaced, -⟩
    · exact (h.placed hm₀ hold).steady hsteady.grows (has_of_model hm₀) hsub
    · exact hplaced
  · intro id m hsound hm hnot
    rcases hmodels hm hnot with ⟨m₀, hm₀, hold⟩ | ⟨-, hdist⟩
    · exact (h.distinct (hsound.before hsteady.grows hsub) hm₀ hold).steady hsteady h.based h.named
        hm₀
    · exact hdist hsound

theorem aside (h : Orderly env s) (haside : Aside s s') : Orderly env s' := by
  have hmodel := haside.model
  refine h.steady (.ofAside haside) ?_ ?_ (fun id hid => ?_) haside.readings ?_ ?_
  · intro id m hm entry hentry
    obtain ⟨p, hp, hname⟩ := h.named ((hmodel id).symm.trans hm) entry hentry
    exact ⟨p, haside.grows.property hp, hname⟩
  · intro id base m hm hbase
    obtain ⟨m', hm'⟩ := h.based ((hmodel id).symm.trans hm) hbase
    exact ⟨m', (hmodel base).trans hm'⟩
  · rw [haside.building] at hid
    exact haside.grows.has (h.marked id hid)
  · intro r _ m m' hm hm'
    rw [hmodel, hm] at hm'
    rw [Option.some.inj hm']
  · intro id m hm hnot
    exact .inl ⟨m, (hmodel id).symm.trans hm, haside.building ▸ hnot⟩

/-- A reading can be noted once its outcome is there. -/
theorem note (h : Orderly env s) (hreader : s.types.Has r.reader)
    (htaken : s.diagnostics.toList = [] → r.use ≠ .inherited →
      ∀ {m}, s.types.model? r.reader = some m → r.Taken s m) :
    Orderly env { s with readings := r :: s.readings } := by
  have hsub : s.readings ⊆ r :: s.readings := subset_cons_self _ _
  refine ⟨h.error, h.named, h.based, h.marked, forall_mem_cons.mpr ⟨hreader, h.readers⟩,
    fun hnil => forall_mem_cons.mpr ⟨fun huse m hm => ?_, fun q hq huse m hm => ?_⟩,
    fun {id m} hm hnot => ?_, fun {id m} hsound hm hnot => ?_⟩
  · exact { htaken hnil huse hm with upheld := fun hy hset =>
      { (htaken hnil huse hm).upheld hy hset with } }
  · have hold := h.taken hnil q hq huse hm
    exact { hold with upheld := fun hy hset => { hold.upheld hy hset with } }
  · exact (h.placed hm hnot).steady (.refl _) (has_of_model hm) hsub
  · exact { h.distinct (hsound.before (.refl _) hsub) hm hnot with }

/-- A new model is accounted for as soon as it is there, unless it is marked as under
construction. -/
theorem push (h : Orderly env s) {node : NodeId} (hprops : ∀ entry ∈ m.properties.entries,
      ∃ p, s.types.property? entry.2 = some p ∧ p.name = entry.1) (hbase : m.base = none)
    (htypes : s'.types = Table.push s.types ⟨some node, .model m⟩)
    (hreads : s'.readings = s.readings) (hdiags : s'.diagnostics = s.diagnostics)
    (hbuilding : s'.building = s.building ∧ (∀ parts, env.tree.kind? node ≠
      some (.modelStatement parts)) ∨ s'.building = s.types.nextId :: s.building) :
    Orderly env s' := by
  have hgrows : s.types.Grows s'.types := htypes ▸ .push _ _
  have hnew : s'.types.model? s.types.nextId = some m := htypes ▸ model?_push_nextId rfl
  have hold : ∀ {id}, s.types.Has id → s'.types.model? id = s.types.model? id := fun hid => by
    rw [htypes, model?, model?, shape?, shape?, get?_push_of_has hid]
  have hcases : ∀ {id m'}, s'.types.model? id = some m' →
      id = s.types.nextId ∧ m' = m ∨ s.types.model? id = some m' := by
    intro id m' hm'
    rw [htypes, model?_eq_some_iff] at hm'
    exact (shape?_push_cases hm').imp (And.imp_right TypeShape.model.inj) model?_eq_some_iff.mpr
  have hmarks : ∀ {id}, id ∈ s'.building → id = s.types.nextId ∨ id ∈ s.building := by
    intro id hid
    rcases hbuilding with ⟨heq, -⟩ | heq
    · exact .inr (heq ▸ hid)
    · exact mem_cons.mp (heq ▸ hid)
  have hnamed : s'.types.NamesProperties := by
    intro id m' hm' entry hentry
    have hentry' : ∃ p, s.types.property? entry.2 = some p ∧ p.name = entry.1 := by
      rcases hcases hm' with ⟨-, rfl⟩ | hm'
      · exact hprops entry hentry
      · exact h.named hm' entry hentry
    obtain ⟨p, hp, hname⟩ := hentry'
    exact ⟨p, hgrows.property hp, hname⟩
  refine h.steady ⟨hgrows, fun hm hnot => ?_, fun hid hnot hmem => ?_, ?_⟩ hnamed ?_ ?_ hreads
    ?_ ?_
  · rw [hold (has_of_model hm), hm]
  · rcases hmarks hmem with rfl | hmem
    · exact not_has_nextId hid
    · exact hnot hmem
  · exact hdiags ▸ prefix_rfl
  · intro id base m' hm' hbase'
    rcases hcases hm' with ⟨-, rfl⟩ | hm'
    · simp [hbase] at hbase'
    · obtain ⟨mb, hmb⟩ := h.based hm' hbase'
      exact ⟨mb, (hold (has_of_model hmb)).trans hmb⟩
  · intro id hid
    rcases hmarks hid with rfl | hid
    · exact has_of_model hnew
    · exact hgrows.has (h.marked id hid)
  · intro r hr m₀ m' hm₀ hm'
    rw [hold (h.readers r hr), hm₀] at hm'
    rw [Option.some.inj hm']
  · intro id m' hm' hnot
    rcases hcases hm' with ⟨rfl, rfl⟩ | hm'
    · rcases hbuilding with ⟨heq, hkind⟩ | heq
      · have hnode : s'.types.node? s.types.nextId = some node := by
          rw [htypes, node?, Table.get?_push_nextId, bind_some]
        exact .inr ⟨.of_other hnode hkind, fun _ => .alone hnamed hnew hbase hnot⟩
      · exact absurd (heq ▸ mem_cons_self) hnot
    · refine .inl ⟨m', hm', fun hmem => hnot ?_⟩
      rcases hbuilding with ⟨heq, -⟩ | heq
      · exact heq ▸ hmem
      · exact heq ▸ mem_cons_of_mem _ hmem

/-- A model under construction may grow. Its base changes only before it has read anything. -/
theorem modifyModel (h : Orderly env s) (ht : t ∈ s.building) (hm : s.types.model? t = some m)
    (hgrown : m.Grown (f m)) (hprops : ∀ entry ∈ (f m).properties.entries,
      ∃ p, s.types.property? entry.2 = some p ∧ p.name = entry.1)
    (hbased : ∀ {base}, (f m).base = some base → ∃ mb, s.types.model? base = some mb)
    (hread : (∃ r ∈ s.readings, r.reader = t) → (f m).base = m.base) :
    Orderly env (s.modifyTypes fun types => types.modifyModel t f) := by
  have hframe := modifyModel_frame hm hgrown
  have hmodel : ∀ id, (s.types.modifyModel t f).model? id =
      if id = t then some (f m) else s.types.model? id := by
    intro id
    rw [model?_modifyModel]
    split
    next heq =>
      rw [heq, hm, map_some]
    · rfl
  have hold : ∀ {id m'}, (s.types.modifyModel t f).model? id = some m' →
      id = t ∧ m' = f m ∨ id ≠ t ∧ s.types.model? id = some m' := by
    intro id m' hm'
    rw [hmodel] at hm'
    split at hm'
    next heq =>
      exact .inl ⟨heq, (Option.some.inj hm').symm⟩
    next hne =>
      exact .inr ⟨hne, hm'⟩
  refine h.steady (.ofFrame hframe ht) ?_ ?_ ?_ rfl ?_ ?_
  · intro id m' hm' entry hentry
    have hentry' : ∃ p, s.types.property? entry.2 = some p ∧ p.name = entry.1 := by
      rcases hold hm' with ⟨-, rfl⟩ | ⟨-, hm'⟩
      · exact hprops entry hentry
      · exact h.named hm' entry hentry
    obtain ⟨p, hp, hname⟩ := hentry'
    exact ⟨p, hframe.grows.property hp, hname⟩
  · intro id base m' hm' hbase
    have hbase' : ∃ mb, s.types.model? base = some mb := by
      rcases hold hm' with ⟨-, rfl⟩ | ⟨-, hm'⟩
      · exact hbased hbase
      · exact h.based hm' hbase
    obtain ⟨mb, hmb⟩ := hbase'
    obtain ⟨mb', hmb', -⟩ := hframe.grows.model hmb
    exact ⟨mb', hmb'⟩
  · intro id hid
    exact hframe.grows.has (h.marked id hid)
  · intro r hr m₀ m' hm₀ hm'
    rcases hold hm' with ⟨heq, rfl⟩ | ⟨-, hm'⟩
    · rw [heq] at hm₀
      obtain rfl := mem_unique hm hm₀
      exact hread ⟨r, hr, heq⟩
    · exact congrArg base (mem_unique hm' hm₀)
  · intro id m' hm' hnot
    rcases hold hm' with ⟨heq, -⟩ | ⟨-, hm'⟩
    · exact absurd (heq ▸ ht) hnot
    · exact .inl ⟨m', hm', hnot⟩

/-- A model is complete when all that is said of complete models holds of it. -/
theorem completed (h : Orderly env s) {outer : List TypeId} (hbuilding : s.building = t :: outer)
    (hplaced : Placed env s t) (hdist : Sound s t → Distinct { s with building := outer } t) :
    Orderly env { s with building := outer } := by
  have hsteady : Steady s { s with building := outer } :=
    ⟨.refl _, fun hm _ => hm, fun _ hnot hmem => hnot (hbuilding ▸ mem_cons_of_mem _ hmem),
      prefix_rfl⟩
  refine h.steady hsteady h.named h.based
    (fun id hid => h.marked id (hbuilding ▸ mem_cons_of_mem _ hid)) rfl
    (fun r _ m m' hm hm' => congrArg base (mem_unique hm' hm))
    fun {id m} hm hnot => ?_
  by_cases heq : id = t
  · subst heq
    exact .inr ⟨{ hplaced with }, fun hsound => hdist (hsound.before (.refl _) fun _ hr => hr)⟩
  · refine .inl ⟨m, hm, fun hmem => ?_⟩
    rw [hbuilding] at hmem
    exact (mem_cons.mp hmem).elim heq hnot

end Orderly

/-- The invariant survives every single change. -/
theorem Stepwise.orderly (own : Option TypeId) :
    Stepwise env own fun s s' => Orderly env s → Orderly env s' := by
  refine .ofAside (fun haside h => h.aside haside) ?_
  intro s known node operands properties hkind hnamed h
  refine h.push (m := { anonymous with properties }) (fun entry hentry => ?_) rfl rfl rfl
    rfl (.inl ⟨rfl, fun parts hparts => ?_⟩)
  · exact (hnamed entry hentry).2
  · simp [hkind] at hparts

end ApiSchema.Checking
