import ApiSchema.Proofs.Types.Growth
import Mathlib.Data.List.Nodup
import Mathlib.Data.List.Perm.Subperm

/-!
# Base models

The chain of base models of a model is found by a search that is bounded by the size of the type
table and stops at the first repetition. If every base is a model of the table the bound is never
reached, so that the chain is the model itself followed by the chain of its base, and stays what it
is as long as the models along it stay what they are.
-/

namespace ApiSchema.TypeTable

open Option List

variable {types types' : TypeTable} {id base k : TypeId} {m : ModelType} {n : Nat}
  {seen : List TypeId}

theorem has_of_model (h : types.model? id = some m) : types.Has id :=
  has_of_shape (model?_eq_some_iff.mp h)

/-! ### The chain of base models -/

/-- What a model extends is a model. -/
def Based (types : TypeTable) : Prop :=
  ∀ {id base : TypeId} {m : ModelType}, types.model? id = some m → m.base = some base →
    ∃ m', types.model? base = some m'

theorem length_le_size (hnodup : seen.Nodup) (hhas : ∀ k ∈ seen, types.Has k) :
    seen.length ≤ types.size := by
  have hindices : (seen.map TypeId.index).Nodup := hnodup.map fun _ _ h => congrArg TypeId.mk h
  have hsub : seen.map TypeId.index ⊆ List.range types.size := by
    intro i hi
    obtain ⟨k, hk, rfl⟩ := mem_map.mp hi
    exact mem_range.mpr (has_iff.mp (hhas k hk))
  simpa using (hindices.subperm hsub).length_le

/-- The bound does not matter, if it leaves room for all types. -/
theorem baseChainFrom_stable {n' : Nat} (hbased : types.Based) (hid : types.Has id)
    (hnodup : seen.Nodup) (hhas : ∀ k ∈ seen, types.Has k) (hn : types.size < seen.length + n)
    (hn' : types.size < seen.length + n') :
    types.baseChainFrom n seen id = types.baseChainFrom n' seen id := by
  have hlength := length_le_size hnodup hhas
  induction n generalizing n' seen id with
  | zero => omega
  | succ n ih =>
    obtain ⟨n', rfl⟩ : ∃ k, n' = k + 1 := ⟨n' - 1, by omega⟩
    rw [baseChainFrom, baseChainFrom]
    split
    · rfl
    next hnew =>
      cases hbase : (types.model? id).bind ModelType.base with
      | none => rfl
      | some base =>
        obtain ⟨m, hm, hmbase⟩ := bind_eq_some_iff.mp hbase
        obtain ⟨m', hm'⟩ := hbased hm hmbase
        have hnodup' : (id :: seen).Nodup := nodup_cons.mpr ⟨hnew, hnodup⟩
        have hhas' : ∀ k ∈ id :: seen, types.Has k := forall_mem_cons.mpr ⟨hid, hhas⟩
        simp only [List.cons.injEq, true_and]
        exact ih (has_of_model hm') hnodup' hhas' (by simp only [length_cons]; omega)
          (by simp only [length_cons]; omega) (length_le_size hnodup' hhas')

/-- Types that are not met do not matter. -/
theorem baseChainFrom_seen {seen' : List TypeId} (hsub : seen ⊆ seen')
    (havoids : ∀ k ∈ seen', k ∈ seen ∨ k ∉ types.baseChainFrom n seen id) :
    types.baseChainFrom n seen' id = types.baseChainFrom n seen id := by
  induction n generalizing seen seen' id with
  | zero => rfl
  | succ n ih =>
    simp only [baseChainFrom] at havoids ⊢
    by_cases hseen : id ∈ seen
    · rw [if_pos hseen, if_pos (hsub hseen)]
    · rw [if_neg hseen] at havoids ⊢
      cases hbase : (types.model? id).bind ModelType.base with
      | none =>
        simp only [hbase] at havoids ⊢
        have hnot : id ∉ seen' := fun hmem =>
          (havoids id hmem).elim hseen fun hnot => hnot (.head _)
        rw [if_neg hnot]
      | some base =>
        simp only [hbase] at havoids ⊢
        have hnot : id ∉ seen' := fun hmem =>
          (havoids id hmem).elim hseen fun hnot => hnot (.head _)
        rw [if_neg hnot]
        refine congrArg (id :: ·) (ih (cons_subset_cons _ hsub) fun k hk => ?_)
        rcases mem_cons.mp hk with rfl | hk
        · exact .inl (.head _)
        · exact (havoids k hk).imp (mem_cons_of_mem _) fun hnot hmem =>
            hnot (.tail _ hmem)

theorem mem_baseChain_self (types : TypeTable) (id : TypeId) : id ∈ types.baseChain id := by
  rw [baseChain, baseChainFrom, if_neg (by simp)]
  split <;> exact .head _

/-- A model without a base is alone. -/
theorem baseChain_of_base_none (h : (types.model? id).bind ModelType.base = none) :
    types.baseChain id = [id] := by
  rw [baseChain, baseChainFrom, if_neg (by simp), h]

/-- The chain of a model is the model and the chain of its base, unless that leads back. -/
theorem baseChain_of_base (hbased : types.Based) (hm : types.model? id = some m)
    (hbase : m.base = some base) (hnot : id ∉ types.baseChain base) :
    types.baseChain id = id :: types.baseChain base := by
  obtain ⟨m', hm'⟩ := hbased hm hbase
  have hhas : ∀ k ∈ [id], types.Has k := by simpa using has_of_model hm
  have hseen : types.baseChainFrom (types.size + 1) [id] base = types.baseChain base :=
    baseChainFrom_seen (nil_subset _) fun k hk => .inr (mem_singleton.mp hk ▸ hnot)
  have hstable : types.baseChainFrom types.size [id] base =
      types.baseChainFrom (types.size + 1) [id] base :=
    baseChainFrom_stable hbased (has_of_model hm') (nodup_singleton id) hhas (by simp)
      (by simp only [length_singleton]; omega)
  rw [baseChain, baseChainFrom, if_neg (by simp), hm, bind_some, hbase]
  simp only
  rw [hstable, hseen]

theorem baseChainFrom_congr
    (h : ∀ k ∈ types.baseChainFrom n seen id, types'.model? k = types.model? k) :
    types'.baseChainFrom n seen id = types.baseChainFrom n seen id := by
  induction n generalizing seen id with
  | zero => rfl
  | succ n ih =>
    simp only [baseChainFrom] at h ⊢
    by_cases hseen : id ∈ seen
    · rw [if_pos hseen, if_pos hseen]
    · rw [if_neg hseen] at h ⊢
      rw [if_neg hseen]
      cases hbase : (types.model? id).bind ModelType.base with
      | none =>
        simp only [hbase] at h ⊢
        rw [h id (.head _), hbase]
      | some base =>
        simp only [hbase] at h ⊢
        rw [h id (.head _), hbase]
        exact congrArg (id :: ·) (ih fun k hk => h k (.tail _ hk))

/-- The chain stays what it is as long as the models along it do. -/
theorem baseChain_congr (hbased : types.Based) (hid : types.Has id)
    (hsize : types.size ≤ types'.size)
    (h : ∀ k ∈ types.baseChain id, types'.model? k = types.model? k) :
    types'.baseChain id = types.baseChain id := by
  have hstable : types.baseChainFrom (types'.size + 1) [] id = types.baseChain id :=
    baseChainFrom_stable hbased hid nodup_nil (by simp) (by simpa using Nat.lt_succ_of_le hsize)
      (by simp)
  rw [← hstable] at h ⊢
  exact baseChainFrom_congr h

/-- All along the chain there are models. -/
theorem exists_model_of_mem_baseChainFrom (hbased : types.Based) (hm : types.model? id = some m)
    (hk : k ∈ types.baseChainFrom n seen id) : ∃ m', types.model? k = some m' := by
  induction n generalizing seen id m with
  | zero => simp [baseChainFrom] at hk
  | succ n ih =>
    rw [baseChainFrom] at hk
    split at hk
    · simp at hk
    · split at hk
      · rw [mem_singleton] at hk
        exact ⟨m, hk ▸ hm⟩
      next base hbase =>
        rcases mem_cons.mp hk with rfl | hk
        · exact ⟨m, hm⟩
        · rw [hm, bind_some] at hbase
          obtain ⟨m', hm'⟩ := hbased hm hbase
          exact ih hm' hk

/-- One model extends another. -/
def Extends (types : TypeTable) (id base : TypeId) : Prop :=
  ∃ m, types.model? id = some m ∧ m.base = some base

theorem extends_of_mem_baseChainFrom (h : k ∈ types.baseChainFrom n seen id) :
    Relation.ReflTransGen types.Extends id k := by
  induction n generalizing seen id with
  | zero => simp [baseChainFrom] at h
  | succ n ih =>
    rw [baseChainFrom] at h
    split at h
    · simp at h
    · split at h
      · rw [mem_singleton] at h
        exact h ▸ .refl
      next base hbase =>
        obtain ⟨m, hm, hmbase⟩ := bind_eq_some_iff.mp hbase
        rcases mem_cons.mp h with rfl | h
        · exact .refl
        · exact .head ⟨m, hm, hmbase⟩ (ih h)

/-- The search stops only where it has been before. -/
theorem mem_baseChainFrom_of_extends (hbased : types.Based) (hid : types.Has id)
    (hnodup : seen.Nodup) (hhas : ∀ k ∈ seen, types.Has k) (hn : types.size < seen.length + n)
    (hk : k ∈ types.baseChainFrom n seen id) (hext : types.Extends k base) :
    base ∈ types.baseChainFrom n seen id ∨ base ∈ seen := by
  induction n generalizing seen id with
  | zero => simp [baseChainFrom] at hk
  | succ n ih =>
    rw [baseChainFrom] at hk ⊢
    by_cases hseen : id ∈ seen
    · simp [hseen] at hk
    · rw [if_neg hseen] at hk ⊢
      obtain ⟨mk, hmk, hmkbase⟩ := hext
      cases hnext : (types.model? id).bind ModelType.base with
      | none =>
        simp only [hnext, mem_singleton] at hk
        simp [← hk, hmk, hmkbase] at hnext
      | some next =>
        simp only [hnext] at hk ⊢
        obtain ⟨m, hm, hmbase⟩ := bind_eq_some_iff.mp hnext
        obtain ⟨m', hm'⟩ := hbased hm hmbase
        have hnodup' : (id :: seen).Nodup := nodup_cons.mpr ⟨hseen, hnodup⟩
        have hhas' : ∀ k ∈ id :: seen, types.Has k := forall_mem_cons.mpr ⟨hid, hhas⟩
        have hlength := length_le_size hnodup' hhas'
        rw [length_cons] at hlength
        have hrest : base ∈ types.baseChainFrom n (id :: seen) next ∨ base ∈ id :: seen := by
          rcases mem_cons.mp hk with rfl | hk
          · obtain rfl := mem_unique hm hmk
            obtain rfl := mem_unique hmbase hmkbase
            by_cases hback : next ∈ k :: seen
            · exact .inr hback
            · obtain ⟨n, rfl⟩ : ∃ i, n = i + 1 := ⟨n - 1, by omega⟩
              refine .inl ?_
              rw [baseChainFrom, if_neg hback]
              split <;> exact .head _
          · exact ih (has_of_model hm') hnodup' hhas' (by rw [length_cons]; omega) hk
        rcases hrest with hrest | hrest
        · exact .inl (.tail _ hrest)
        · rcases mem_cons.mp hrest with rfl | hrest
          · exact .inl (.head _)
          · exact .inr hrest

/-- The chain of a model consists of all models that it extends, over any number of others. -/
theorem mem_baseChain_iff (hbased : types.Based) (hid : types.Has id) :
    k ∈ types.baseChain id ↔ Relation.ReflTransGen types.Extends id k := by
  refine ⟨extends_of_mem_baseChainFrom, fun h => ?_⟩
  induction h with
  | refl => exact mem_baseChain_self types id
  | tail _ hlast ih =>
    exact (mem_baseChainFrom_of_extends hbased hid nodup_nil (by simp) (by simp) ih
      hlast).resolve_right (by simp)

/-! ### The names of properties -/

/-- Properties stand under their names. -/
def NamesProperties (types : TypeTable) : Prop :=
  ∀ {id : TypeId} {m : ModelType}, types.model? id = some m → ∀ entry ∈ m.properties.entries,
    ∃ p, types.property? entry.2 = some p ∧ p.name = entry.1

/-- The names of the own properties of a model. -/
def ownNames (types : TypeTable) (id : TypeId) : List String :=
  types.propertyNames (types.ownProperties id)

theorem ownNames_eq_keys (hnames : types.NamesProperties) (hm : types.model? id = some m) :
    types.ownNames id = m.properties.keys := by
  have hall := hnames hm
  rw [ownNames, ownProperties, hm, propertyNames, map_some, getD_some,
    OrderedMap.values, OrderedMap.keys, filterMap_map]
  generalize m.properties.entries = entries at hall
  induction entries with
  | nil => rfl
  | cons entry entries ih =>
    obtain ⟨⟨p, hp, hname⟩, hrest⟩ := forall_mem_cons.mp hall
    rw [filterMap_cons, map_cons, Function.comp_apply, hp, map_some, hname,
      ih hrest]

theorem inheritedNames_eq_flatMap (types : TypeTable) (id : TypeId) :
    types.inheritedNames id = (types.baseChain id).flatMap types.ownNames := by
  rw [inheritedNames, inheritedProperties, propertyNames]
  induction types.baseChain id with
  | nil => rfl
  | cons k rest ih => rw [flatMap_cons, filterMap_append, ih, flatMap_cons]; rfl

/-- The names of a model are its own and those of its base. -/
theorem inheritedNames_of_base (hbased : types.Based) (hm : types.model? id = some m)
    (hbase : m.base = some base) (hnot : id ∉ types.baseChain base) :
    types.inheritedNames id = types.ownNames id ++ types.inheritedNames base := by
  rw [inheritedNames_eq_flatMap, baseChain_of_base hbased hm hbase hnot, flatMap_cons,
    inheritedNames_eq_flatMap]

/-- The names stay what they are as long as the model does. -/
theorem ownNames_congr (hnames : types.NamesProperties)
    (hprop : ∀ {p : TypeId} {property : PropertyType}, types.property? p = some property →
      types'.property? p = some property) (hid : types.model? id = some m)
    (h : types'.model? id = types.model? id) : types'.ownNames id = types.ownNames id := by
  have hall := hnames hid
  rw [ownNames, ownNames, ownProperties, ownProperties, h, hid, map_some, getD_some,
    propertyNames, propertyNames]
  refine filterMap_congr fun p hp => ?_
  obtain ⟨entry, hentry, rfl⟩ := mem_map.mp hp
  obtain ⟨property, hprop', -⟩ := hall entry hentry
  rw [hprop', hprop hprop']

/-- All the names of a model stay what they are as long as the models along its chain do. -/
theorem inheritedNames_congr (hbased : types.Based) (hnames : types.NamesProperties)
    (hsize : types.size ≤ types'.size)
    (hprop : ∀ {p : TypeId} {property : PropertyType}, types.property? p = some property →
      types'.property? p = some property) (hid : types.model? id = some m)
    (h : ∀ k ∈ types.baseChain id, types'.model? k = types.model? k) :
    types'.inheritedNames id = types.inheritedNames id := by
  rw [inheritedNames_eq_flatMap, inheritedNames_eq_flatMap,
    baseChain_congr hbased (has_of_model hid) hsize h]
  refine flatMap_congr fun k hk => ?_
  obtain ⟨m', hm'⟩ := exists_model_of_mem_baseChainFrom hbased hid hk
  exact ownNames_congr hnames hprop hm' (h k hk)

end ApiSchema.TypeTable
