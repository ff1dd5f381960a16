import ApiSchema.Proofs.Binding.Claims
import Mathlib.Data.Finset.Card

/-!
# Calls on symbol tables

A symbol table is filled by three kinds of calls. However they are mixed, the table says of a name
what the whole history of calls says: the name belongs to whoever took it over last, else to whoever
set it first, and where there are rivals all of them are on record.
-/

namespace ApiSchema.SymbolTable

open List Option

/-- A call that changes a symbol table. -/
inductive Call where
  | set (name : String) (symbol : SymbolId)
  | overwrite (name : String) (symbol : SymbolId)
  | recordDuplicates (name : String) (symbols : List SymbolId)

variable {table : SymbolTable} {calls : List Call} {name : String} {symbol id : SymbolId}

namespace Call

/-- The table after a call. -/
def apply (table : SymbolTable) : Call → SymbolTable
  | set name symbol => table.set name symbol
  | overwrite name symbol => table.overwrite name symbol
  | recordDuplicates name symbols => table.recordDuplicates name symbols

/-- The name that a call claims, and the symbol that it claims it for. -/
def claim? : Call → Option (String × SymbolId)
  | set name symbol | overwrite name symbol => some (name, symbol)
  | recordDuplicates .. => none

/-- The symbol that sets a name. -/
def setter? (name : String) : Call → Option SymbolId
  | set key symbol => if key = name then some symbol else none
  | _ => none

/-- The symbol that takes a name over. -/
def usurper? (name : String) : Call → Option SymbolId
  | overwrite key symbol => if key = name then some symbol else none
  | _ => none

/-- The symbols that are put on record for a name. -/
def recorded (name : String) : Call → List SymbolId
  | recordDuplicates key symbols => if key = name then symbols else []
  | _ => []

/-- A name is claimed by setting it or by taking it over. -/
theorem claim?_iff (call : Call) : call.claim? = some (name, symbol) ↔
    call.setter? name = some symbol ∨ call.usurper? name = some symbol := by
  cases call <;> simp [claim?, setter?, usurper?]

/-- What a call does to the symbols on record. A claimant that finds the name taken is put on record
with the one that has it. -/
theorem mem_contestants_apply (call : Call) : id ∈ (call.apply table).contestants name ↔
    (id ∈ table.contestants name ∨ id ∈ call.recorded name) ∨
      ∃ symbol existing, call.claim? = some (name, symbol) ∧ table.find? name = some existing ∧
        existing ≠ symbol ∧ (id = existing ∨ id = symbol) := by
  cases call with
  | set key _ | overwrite key _ | recordDuplicates key _ =>
    by_cases hkey : key = name
    · simp [apply, mem_contestants_set, mem_contestants_overwrite,
        mem_contestants_recordDuplicates, claim?, recorded, hkey]
    · simp [apply, mem_contestants_set, mem_contestants_overwrite,
        mem_contestants_recordDuplicates, claim?, recorded, hkey, Ne.symm hkey]

/-- A call that claims a name binds it, and a new name comes last. -/
theorem keys_apply (call : Call) : (call.apply table).bound.keys =
    match call.claim? with
    | some (name, _) =>
      if name ∈ table.bound.keys then table.bound.keys else table.bound.keys ++ [name]
    | none => table.bound.keys := by
  cases call with
  | set name symbol =>
    rw [apply, SymbolTable.set]
    cases hfind : table.find? name with
    | none => exact OrderedMap.keys_insert _ _ _
    | some existing =>
      have hmem : name ∈ table.bound.keys :=
        OrderedMap.contains_iff.mp (isSome_iff_exists.mpr ⟨existing, hfind⟩)
      simp only [claim?, if_pos hmem]
      split <;> rfl
  | overwrite name symbol =>
    simp only [claim?, ← OrderedMap.keys_insert table.bound name symbol, apply,
      SymbolTable.overwrite]
    split
    · rfl
    · split <;> rfl
  | recordDuplicates name symbols => rfl

theorem nodup_contestants_apply (h : ∀ key, (table.contestants key).Nodup) (call : Call)
    (name : String) : ((call.apply table).contestants name).Nodup := by
  have hadded : ∀ (symbols known : List SymbolId), known.Nodup →
      (addClaimants known symbols).Nodup := by
    intro symbols
    induction symbols with
    | nil => exact fun _ hknown => hknown
    | cons symbol rest ih =>
      intro known hknown
      refine ih _ ?_
      beta_reduce
      split
      · exact hknown
      next hnew => simpa [concat_eq_append] using hknown.concat hnew
  have hrec : ∀ key symbols,
      ((table.recordDuplicates key symbols).contestants name).Nodup := by
    intro key symbols
    rw [contestants, SymbolTable.recordDuplicates, OrderedMap.find?_insert]
    split
    · exact hadded _ _ (h key)
    · exact h name
  rw [apply.eq_def]
  split
  · rw [SymbolTable.set]
    split
    · exact h name
    · split
      · exact h name
      · exact hrec _ _
  · rw [SymbolTable.overwrite]
    split
    · exact h name
    · split
      · exact h name
      · exact hrec _ _
  · exact hrec _ _

end Call

/-- The table after a sequence of calls. -/
def ofCalls (calls : List Call) : SymbolTable := calls.foldl Call.apply .empty

/-- The symbols that set a name or take it over. -/
def claimants (calls : List Call) (name : String) : Finset SymbolId :=
  (calls.filterMap (Call.setter? name) ++ calls.filterMap (Call.usurper? name)).toFinset

theorem ofCalls_append_singleton (calls : List Call) (call : Call) :
    ofCalls (calls ++ [call]) = call.apply (ofCalls calls) := by
  simp [ofCalls, foldl_append]

theorem mem_claimants :
    id ∈ claimants calls name ↔ ∃ call ∈ calls, call.claim? = some (name, id) := by
  simp [claimants, Call.claim?_iff, and_or_left, exists_or]

/-! ### Bound names -/

/-- A name belongs to whoever took it over last, else to whoever set it first. -/
theorem find?_ofCalls (calls : List Call) (name : String) :
    (ofCalls calls).find? name = (calls.filterMap (Call.usurper? name)).getLast?.or
      (calls.filterMap (Call.setter? name)).head? := by
  induction calls using reverseRecOn with
  | nil => rfl
  | append_singleton calls call ih =>
    rw [ofCalls_append_singleton, filterMap_append, filterMap_append,
      getLast?_append, head?_append]
    cases call with
    | set key symbol =>
      rw [Call.apply, find?_set_eq, ih]
      by_cases hkey : key = name
      · simp [Call.setter?, Call.usurper?, ih, hkey]
      · simp [Call.setter?, Call.usurper?, hkey, Ne.symm hkey]
    | overwrite key symbol =>
      rw [Call.apply, find?_overwrite_eq, ih]
      by_cases hkey : key = name
      · simp [Call.usurper?, hkey]
      · simp [Call.setter?, Call.usurper?, hkey, Ne.symm hkey]
    | recordDuplicates key symbols =>
      simpa [Call.apply, recordDuplicates, SymbolTable.find?, Call.setter?, Call.usurper?] using ih

/-- Whoever has a name has claimed it. -/
theorem mem_claimants_of_find? (h : (ofCalls calls).find? name = some id) :
    id ∈ claimants calls name := by
  rw [claimants, List.mem_toFinset, mem_append]
  rw [find?_ofCalls] at h
  rcases or_eq_some_iff.mp h with h | ⟨-, h⟩
  · exact .inr (mem_of_getLast? h)
  · exact .inl (mem_of_head? h)

/-- A name is bound if it is claimed. -/
theorem isSome_find?_ofCalls (calls : List Call) (name : String) :
    ((ofCalls calls).find? name).isSome = true ↔ (claimants calls name).Nonempty := by
  refine ⟨fun h => ?_, fun h => ?_⟩
  · obtain ⟨id, hid⟩ := isSome_iff_exists.mp h
    exact ⟨id, mem_claimants_of_find? hid⟩
  · obtain ⟨id, hid⟩ := h
    rw [find?_ofCalls, isSome_or, Bool.or_eq_true]
    rcases mem_append.mp (List.mem_toFinset.mp hid) with hid | hid
    · exact .inr (isSome_head?.mpr (ne_nil_of_mem hid))
    · exact .inl (getLast?_isSome.mpr (ne_nil_of_mem hid))

/-- Names stand in the order in which they were claimed first. -/
theorem keys_ofCalls (calls : List Call) :
    (ofCalls calls).bound.keys = ((calls.filterMap Call.claim?).map Prod.fst).eraseDups := by
  induction calls using reverseRecOn with
  | nil => rfl
  | append_singleton calls call ih =>
    rw [ofCalls_append_singleton, Call.keys_apply, ih, filterMap_append, map_append,
      eraseDups_append]
    cases hclaim : call.claim? with
    | none => simp [hclaim, removeAll]
    | some claim =>
      by_cases hmem : claim.1 ∈ (calls.filterMap Call.claim?).map Prod.fst
      · simp_all [removeAll]
      · simp_all [removeAll, eraseDups_cons]

/-! ### Contested names -/

/-- Nobody is on record twice. -/
theorem nodup_contestants_ofCalls (calls : List Call) (name : String) :
    ((ofCalls calls).contestants name).Nodup := by
  induction calls using reverseRecOn generalizing name with
  | nil => exact nodup_nil
  | append_singleton calls call ih =>
    rw [ofCalls_append_singleton]
    exact call.nodup_contestants_apply ih name

/-- A further claimant of a name is a rival of whoever has the name. -/
theorem rivals_insert (calls : List Call) (name : String) (symbol id : SymbolId) :
    1 < (insert symbol (claimants calls name)).card ∧ id ∈ insert symbol (claimants calls name) ↔
      (1 < (claimants calls name).card ∧ id ∈ claimants calls name) ∨
        ∃ existing, (ofCalls calls).find? name = some existing ∧ existing ≠ symbol ∧
          (id = existing ∨ id = symbol) := by
  cases hfind : (ofCalls calls).find? name with
  | none =>
    have hempty : claimants calls name = ∅ := by
      rw [← Finset.not_nonempty_iff_eq_empty, ← isSome_find?_ofCalls, hfind]
      simp
    simp [hempty]
  | some existing =>
    have hmem := mem_claimants_of_find? hfind
    by_cases hsame : existing = symbol
    · simp [← hsame, Finset.insert_eq_of_mem hmem]
    · have hrivals : 1 < (insert symbol (claimants calls name)).card :=
        Finset.one_lt_card.mpr ⟨existing, by simp [hmem], symbol, by simp, hsame⟩
      -- There were rivals before, or else there was one claimant only, who has the name.
      by_cases hcard : 1 < (claimants calls name).card
      · simp only [hrivals, hcard, true_and, Finset.mem_insert, some.injEq]
        grind
      · have honly : claimants calls name = {existing} :=
          (Finset.eq_of_subset_of_card_le (by simpa using hmem) (by simpa using hcard)).symm
        rw [honly] at hrivals ⊢
        simp only [hrivals, true_and, Finset.mem_insert, some.injEq]
        grind

/-- On record are all rivals, and whoever was put there. -/
theorem mem_contestants_ofCalls (calls : List Call) (name : String) (id : SymbolId) :
    id ∈ (ofCalls calls).contestants name ↔ id ∈ calls.flatMap (Call.recorded name) ∨
      1 < (claimants calls name).card ∧ id ∈ claimants calls name := by
  induction calls using reverseRecOn with
  | nil => simp [ofCalls, contestants, SymbolTable.empty, claimants]
  | append_singleton calls call ih =>
    rw [ofCalls_append_singleton, Call.mem_contestants_apply, ih, flatMap_append,
      mem_append, flatMap_singleton]
    by_cases hclaim : ∃ symbol, call.claim? = some (name, symbol)
    · obtain ⟨symbol, hsym⟩ := hclaim
      have hmore : claimants (calls ++ [call]) name = insert symbol (claimants calls name) := by
        ext other
        simp [mem_claimants, or_and_right, exists_or, hsym, eq_comm, or_comm]
      rw [hmore, rivals_insert]
      simp only [hsym, some.injEq, Prod.mk.injEq, true_and]
      grind
    · have hsame : claimants (calls ++ [call]) name = claimants calls name := by
        ext other
        simp_all [mem_claimants, or_and_right, exists_or]
      rw [hsame]
      grind

/-- However a table is filled, no claim to a name is lost. -/
theorem calls_lose_no_claim (calls : List Call) (name : String) :
    (((ofCalls calls).find? name).isSome = true ↔ (claimants calls name).Nonempty) ∧
    (ofCalls calls).find? name = (calls.filterMap (Call.usurper? name)).getLast?.or
      (calls.filterMap (Call.setter? name)).head? ∧
    ((ofCalls calls).contestants name).Nodup ∧
    (2 ≤ (claimants calls name).card →
      ∀ id ∈ claimants calls name, id ∈ (ofCalls calls).contestants name) ∧
    ((claimants calls name).card < 2 → ∀ id ∈ (ofCalls calls).contestants name,
      id ∈ calls.flatMap (Call.recorded name)) ∧
    (ofCalls calls).bound.keys = ((calls.filterMap Call.claim?).map Prod.fst).eraseDups := by
  refine ⟨isSome_find?_ofCalls calls name, find?_ofCalls calls name,
    nodup_contestants_ofCalls calls name, fun hrivals id hid => ?_, fun hfew id hid => ?_,
    keys_ofCalls calls⟩
  · exact (mem_contestants_ofCalls calls name id).mpr (.inr ⟨hrivals, hid⟩)
  · refine ((mem_contestants_ofCalls calls name id).mp hid).resolve_right fun hrivals => ?_
    have hmany := hrivals.1
    omega

end ApiSchema.SymbolTable
