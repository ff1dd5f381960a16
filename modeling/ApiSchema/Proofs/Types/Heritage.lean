import ApiSchema.Proofs.Types.BaseChain

/-!
# Acyclic base models

Which chains of base models there are depends on what each model extends and on nothing else. If no
model extends itself, over any number of others, then this stays so when a model is given a base
that does not lead back to it, or the base of such a model. The search for a chain then never meets
a type twice: a walk along the bases that does not look out for repetitions finds the same types.
-/

namespace ApiSchema.TypeTable

open Relation Option

variable {types types' : TypeTable} {id base k model source : TypeId} {m : ModelType}
  {f : ModelType → ModelType}

/-! ### What a model extends -/

/-- What a model extends, if a type is a model. -/
def heritage? (types : TypeTable) (id : TypeId) : Option (Option TypeId) :=
  (types.model? id).map ModelType.base

/-- A model extends its base. -/
theorem extends_iff : types.Extends id base ↔ types.heritage? id = some (some base) := by
  rw [heritage?, map_eq_some_iff]
  rfl

/-- What extends a base or nothing is a model. -/
theorem exists_model_iff : (∃ m, types.model? id = some m) ↔ (types.heritage? id).isSome = true := by
  rw [heritage?, isSome_map, isSome_iff_exists]

/-- What extends something is a type. -/
theorem has_of_heritage (h : (types.heritage? id).isSome = true) : types.Has id := by
  obtain ⟨m, hm⟩ := exists_model_iff.mpr h
  exact has_of_model hm

/-- A new row leaves alone what is there. -/
theorem heritage?_push_of_has (row : TypeRecord) (h : types.Has id) :
    heritage? (types.push row) id = types.heritage? id := by
  rw [heritage?, heritage?, model?, model?, shape?, shape?, get?_push_of_has h]

/-- A row that is added without a base extends nothing. -/
theorem heritage?_push {row : TypeRecord} (hrow : ∀ m, row.shape = .model m → m.base = none)
    (h : heritage? (types.push row) id = some (some base)) :
    types.heritage? id = some (some base) := by
  by_cases hid : types.Has id
  · rwa [heritage?_push_of_has row hid] at h
  · obtain ⟨m, hm, hbase⟩ := extends_iff.mpr h
    rcases shape?_push_cases (model?_eq_some_iff.mp hm) with ⟨-, heq⟩ | hold
    · simp [hrow m heq.symm] at hbase
    · exact absurd (has_of_shape hold) hid

/-- A change that keeps bases leaves alone what models extend. -/
theorem heritage?_modifyModel (hf : ∀ m, (f m).base = m.base) (id other : TypeId) :
    (types.modifyModel id f).heritage? other = types.heritage? other := by
  rw [heritage?, model?_modifyModel]
  split
  · rw [Option.map_map, heritage?]
    exact congrArg (Option.map · _) (funext hf)
  · rfl

/-- Only the model that gets the base extends something else. -/
theorem heritage?_setBase (types : TypeTable) (model : TypeId) (base : Option TypeId)
    (id : TypeId) :
    (types.modifyModel model fun m => { m with base }).heritage? id =
      if id = model then (types.heritage? id).map fun _ => base else types.heritage? id := by
  rw [heritage?, model?_modifyModel]
  split
  · rw [heritage?, Option.map_map, Option.map_map]
    rfl
  · rfl

/-- Whether there is a base or not, a model is a model. -/
theorem isSome_heritage?_setBase (types : TypeTable) (model : TypeId) (base : Option TypeId)
    (id : TypeId) : ((types.modifyModel model fun m => { m with base }).heritage? id).isSome =
      (types.heritage? id).isSome := by
  rw [heritage?_setBase]
  split
  · rw [isSome_map]
  · rfl

/-- A change that leaves models alone leaves alone what they extend. -/
theorem heritage?_modifyShape {f : TypeShape → TypeShape}
    (hf : ∀ shape m, f shape = .model m ↔ shape = .model m) (id other : TypeId) :
    (types.modifyShape id f).heritage? other = types.heritage? other := by
  have hiff : ∀ m, (types.modifyShape id f).model? other = some m ↔ types.model? other = some m := by
    intro m
    rw [model?_eq_some_iff, model?_eq_some_iff, shape?_modifyShape]
    split
    · simp [map_eq_some_iff, hf]
    · rfl
  rw [heritage?, heritage?, Option.ext hiff]

/-- A change of a namespace does so. -/
theorem heritage?_modifyNamespace (f : NamespaceType → NamespaceType) (id other : TypeId) :
    (types.modifyNamespace id f).heritage? other = types.heritage? other :=
  heritage?_modifyShape (fun shape _ => by cases shape <;> simp) id other

/-! ### Properties of what models extend -/

/-- The second table has all types of the first one, and these extend what they extended. -/
def KeepsHeritage (types types' : TypeTable) : Prop :=
  ∀ id, types.Has id → types'.Has id ∧ types'.heritage? id = types.heritage? id

theorem KeepsHeritage.refl (types : TypeTable) : KeepsHeritage types types :=
  fun _ hid => ⟨hid, rfl⟩

theorem KeepsHeritage.trans {types₁ types₂ types₃ : TypeTable} (h : KeepsHeritage types₁ types₂)
    (h' : KeepsHeritage types₂ types₃) : KeepsHeritage types₁ types₃ := by
  intro id hid
  obtain ⟨hid₂, heq⟩ := h id hid
  obtain ⟨hid₃, heq'⟩ := h' id hid₂
  exact ⟨hid₃, heq'.trans heq⟩

/-- A change that keeps bases keeps what types extend. -/
theorem KeepsHeritage.modifyModel (hf : ∀ m, (f m).base = m.base) (model : TypeId) :
    KeepsHeritage types (types.modifyModel model f) := by
  refine fun id hid => ⟨has_iff.mpr ?_, heritage?_modifyModel hf model id⟩
  rw [TypeTable.modifyModel, modifyShape, Table.size_modify]
  exact has_iff.mp hid

/-- A property of what models extend that lasts when types are added, when a model loses its base,
and when a model gets a base that does not lead back to it or the base of such a model. -/
structure Lasting (sound : TypeTable → Prop) : Prop where
  congr {types types' : TypeTable} : (∀ id, types'.heritage? id = types.heritage? id) →
    sound types → sound types'
  push {types : TypeTable} {row : TypeRecord} : (∀ m, row.shape = .model m → m.base = none) →
    sound types → sound (types.push row)
  clear {types : TypeTable} (model : TypeId) : sound types →
    sound (types.modifyModel model fun m => { m with base := none })
  rebase {types types' : TypeTable} {model source : TypeId} {m : ModelType}
    {base : Option TypeId} : sound types → types.model? source = some m →
    model ∉ types.baseChain source → KeepsHeritage types types' → sound types' →
    base = some source ∨ base = m.base →
    sound (types'.modifyModel model fun m => { m with base })

/-- That there is a table lasts. -/
theorem Lasting.trivial : Lasting fun _ => True :=
  ⟨fun _ => id, fun _ => id, fun _ => id, fun _ _ _ _ _ _ => True.intro⟩

/-! ### Acyclic tables -/

/-- What a model extends is a model, and no model extends itself, over any number of others. -/
structure Acyclic (types : TypeTable) : Prop where
  based : types.Based
  irreflexive : ∀ id, ¬ TransGen types.Extends id id

/-- Bases are models if what models extend is so. -/
theorem based_iff : types.Based ↔
    ∀ id base, types.heritage? id = some (some base) → (types.heritage? base).isSome = true := by
  constructor
  · intro h id base hid
    obtain ⟨m, hm, hbase⟩ := extends_iff.mpr hid
    exact exists_model_iff.mp (h hm hbase)
  · intro h id base m hm hbase
    exact exists_model_iff.mpr (h id base (extends_iff.mp ⟨m, hm, hbase⟩))

/-- Fewer extensions make no cycle. -/
theorem Acyclic.of_subset (h : types.Acyclic)
    (hsub : ∀ id base, types'.heritage? id = some (some base) → types.heritage? id = some (some base))
    (hmodel : ∀ id, (types.heritage? id).isSome = true → (types'.heritage? id).isSome = true) :
    types'.Acyclic := by
  have hext : types'.Extends ≤ types.Extends := fun id base hid =>
    extends_iff.mpr (hsub id base (extends_iff.mp hid))
  refine ⟨based_iff.mpr fun id base hid => ?_, fun id hcycle => ?_⟩
  · exact hmodel base (based_iff.mp h.based id base (hsub id base hid))
  · exact h.irreflexive id (TransGen.mono hext id id hcycle)

/-- A model without its base makes no cycle. -/
theorem Acyclic.clearBase (h : types.Acyclic) (model : TypeId) :
    (types.modifyModel model fun m => { m with base := none }).Acyclic := by
  refine h.of_subset (fun id base hid => ?_) fun id hid => ?_
  · rw [heritage?_setBase] at hid
    split at hid
    · simp at hid
    · exact hid
  · rwa [isSome_heritage?_setBase]

/-- With one more extension, a way from one model to another is an old one, or leads over the new
extension. -/
theorem transGen_of_extends (hnew : ∀ a b, types'.Extends a b →
      types.Extends a b ∨ a = model ∧ b = base) (h : TransGen types'.Extends id k) :
    TransGen types.Extends id k ∨
      ReflTransGen types.Extends id model ∧ ReflTransGen types.Extends base k := by
  induction h with
  | single hab =>
    rcases hnew _ _ hab with hab | ⟨rfl, rfl⟩
    · exact .inl (.single hab)
    · exact .inr ⟨.refl, .refl⟩
  | tail _ hbc ih =>
    rcases hnew _ _ hbc with hbc | ⟨rfl, rfl⟩
    · exact ih.imp (·.tail hbc) fun ⟨hto, hfrom⟩ => ⟨hto, hfrom.tail hbc⟩
    · exact .inr ⟨ih.elim TransGen.to_reflTransGen And.left, .refl⟩

/-- A base that does not lead back makes no cycle. -/
theorem Acyclic.setBase (h : types.Acyclic) (hbase : (types.heritage? base).isSome = true)
    (hback : ¬ ReflTransGen types.Extends base model) :
    (types.modifyModel model fun m => { m with base := some base }).Acyclic := by
  have hnew : ∀ a b, (types.modifyModel model fun m => { m with base := some base }).Extends a b →
      types.Extends a b ∨ a = model ∧ b = base := by
    intro a b hab
    rw [extends_iff, heritage?_setBase] at hab
    split at hab
    · obtain ⟨-, -, heq⟩ := map_eq_some_iff.mp hab
      exact .inr ⟨‹_›, (Option.some.inj heq).symm⟩
    · exact .inl (extends_iff.mpr hab)
  refine ⟨based_iff.mpr fun a b hab => ?_, fun id hcycle => ?_⟩
  · rw [isSome_heritage?_setBase]
    rcases hnew a b (extends_iff.mpr hab) with hab | ⟨-, rfl⟩
    · exact based_iff.mp h.based a b (extends_iff.mp hab)
    · exact hbase
  · rcases transGen_of_extends hnew hcycle with hcycle | ⟨hto, hfrom⟩
    · exact h.irreflexive id hcycle
    · exact hback (hfrom.trans hto)

/-- From a type that there is, bases lead only where they led before. -/
theorem KeepsHeritage.reaches (h : KeepsHeritage types types') (hbased : types.Based)
    (hid : types.Has id) (hreach : ReflTransGen types'.Extends id k) :
    ReflTransGen types.Extends id k ∧ types.Has k := by
  induction hreach with
  | refl => exact ⟨.refl, hid⟩
  | tail _ hlast ih =>
    obtain ⟨hbefore, hhas⟩ := ih
    have hext := extends_iff.mpr ((h _ hhas).2 ▸ extends_iff.mp hlast)
    obtain ⟨m, hm, hbase⟩ := hext
    obtain ⟨m', hm'⟩ := hbased hm hbase
    exact ⟨hbefore.tail ⟨m, hm, hbase⟩, has_of_model hm'⟩

/-- That there is no cycle lasts. -/
theorem Lasting.acyclic : Lasting Acyclic where
  congr heq h := h.of_subset (fun id base hid => heq id ▸ hid) fun id hid => heq id ▸ hid
  push hrow h := h.of_subset (fun id base => heritage?_push hrow) fun id hid => by
    rwa [heritage?_push_of_has _ (has_of_heritage hid)]
  clear model h := h.clearBase model
  rebase := by
    intro types types' model source m base h hm hnot hkeeps h' hbase
    have hsource := has_of_model hm
    have hback : ¬ ReflTransGen types'.Extends source model := fun hreach =>
      hnot ((mem_baseChain_iff h.based hsource).mpr (hkeeps.reaches h.based hsource hreach).1)
    have hher : types'.heritage? source = some m.base :=
      (hkeeps source hsource).2.trans (by rw [heritage?, hm, map_some])
    rcases hbase with rfl | rfl
    · exact h'.setBase (by simp [hher]) hback
    · cases hbase : m.base with
      | none => exact h'.clearBase model
      | some base =>
        rw [hbase] at hher
        exact h'.setBase (based_iff.mp h'.based source base hher) fun hreach =>
          hback (.head (extends_iff.mpr hher) hreach)

/-! ### Walking along the bases -/

/-- At most `length` types from a type on along base models, whether they are repeated or not. -/
def basesFrom (types : TypeTable) : Nat → TypeId → List TypeId
  | 0, _ => []
  | length + 1, id =>
    match (types.model? id).bind ModelType.base with
    | none => [id]
    | some base => id :: basesFrom types length base

namespace Acyclic

variable (h : types.Acyclic)

include h

/-- A base does not lead back. -/
theorem not_mem_baseChain (hm : types.model? id = some m) (hbase : m.base = some base) :
    id ∉ types.baseChain base := by
  obtain ⟨m', hm'⟩ := h.based hm hbase
  rw [mem_baseChain_iff h.based (has_of_model hm')]
  exact fun hback => h.irreflexive id (.head' ⟨m, hm, hbase⟩ hback)

/-- The chain of a model is the model and the chain of its base. -/
theorem baseChain_eq (hm : types.model? id = some m) (hbase : m.base = some base) :
    types.baseChain id = id :: types.baseChain base :=
  baseChain_of_base h.based hm hbase (h.not_mem_baseChain hm hbase)

/-- A walk that does not look out for repetitions finds the types of the chain. -/
theorem basesFrom_eq_take (length : Nat) (id : TypeId) :
    types.basesFrom length id = (types.baseChain id).take length := by
  induction length generalizing id with
  | zero => rfl
  | succ length ih =>
    rw [basesFrom]
    cases hbase : (types.model? id).bind ModelType.base with
    | none => rw [baseChain_of_base_none hbase, List.take_of_length_le (by simp)]
    | some base =>
      obtain ⟨m, hm, hmbase⟩ := bind_eq_some_iff.mp hbase
      simp only [h.baseChain_eq hm hmbase, List.take_succ_cons, ih base]

/-- The properties of a model are its own and then all those of its base. -/
theorem inheritedProperties_eq (hm : types.model? id = some m) :
    types.inheritedProperties id =
      m.properties.values ++ (m.base.map types.inheritedProperties).getD [] := by
  have hown : types.ownProperties id = m.properties.values := by
    rw [ownProperties, hm, map_some, getD_some]
  cases hbase : m.base with
  | none =>
    have hnone : (types.model? id).bind ModelType.base = none := by rw [hm, bind_some, hbase]
    rw [inheritedProperties, baseChain_of_base_none hnone, List.flatMap_singleton, hown,
      map_none, getD_none, List.append_nil]
  | some base =>
    rw [inheritedProperties, h.baseChain_eq hm hbase, List.flatMap_cons, hown]
    rfl

end Acyclic

end ApiSchema.TypeTable
