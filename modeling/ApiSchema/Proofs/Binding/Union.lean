import ApiSchema.Proofs.Binding.Contests
import ApiSchema.Proofs.Binding.Paths

/-!
# Merging is union by path

Merging enters the bindings of the files one after the other into canonical namespaces. After any
number of entries, a canonical namespace binds a name to what stands for the first entry of that
name whose namespace it stands for. Namespaces have the same canonical namespace exactly if they
have the same path.
-/

namespace ApiSchema

open Bindings Option List

variable {tree : Tree} {scope : BindingScope} {name : String} {id canonical other : SymbolId}
  {e : Entry}

namespace Bindings

variable {b : Bindings} {file : NodeId}

theorem mem_of_binding? (h : b.binding? scope name = some id) :
    (name, id) ∈ ((b.scopeTable? scope).getD .empty).bound.entries := by
  obtain ⟨table, htable, hfind⟩ := bind_eq_some_iff.mp h
  rw [htable]
  exact OrderedMap.find?_eq_some_iff.mp hfind

/-- What is entered stands in a table inside the file. -/
theorem inside_of_mem_entriesWithin {depth : Nat} (hinside : Inside b file scope)
    (h : e ∈ b.entriesWithin depth scope) :
    Inside b file e.scope ∧ b.binding? e.scope e.name = some e.id := by
  induction depth generalizing scope with
  | zero => simp [entriesWithin] at h
  | succ depth ih =>
    obtain ⟨entry, hentry, he⟩ := mem_flatMap.mp h
    have hbind := binding?_of_mem hentry
    rcases mem_cons.mp he with rfl | he
    · exact ⟨hinside, hbind⟩
    · split at he
      next hns =>
        exact ih (.nested hinside hbind hns) he
      · simp at he

/-- Every table inside a file is reached. -/
theorem Situated.mem_entries_iff (h : Situated tree b) :
    e ∈ b.entries file ↔ Inside b file e.scope ∧ b.binding? e.scope e.name = some e.id := by
  refine ⟨inside_of_mem_entriesWithin .file, fun ⟨hinside, hbind⟩ => ?_⟩
  have hreached : ∀ {scope : BindingScope}, Inside b file scope → ∃ depth,
      b.symbols.size < depth + scope.owner.index ∧ b.entriesWithin depth scope ⊆ b.entries file := by
    intro scope hscope
    induction hscope with
    | file => exact ⟨b.symbols.size + 1, by omega, List.Subset.refl _⟩
    | @nested scope name id _ hid hns ih =>
      obtain ⟨depth, hdepth, hsub⟩ := ih
      obtain ⟨hlt, hsize⟩ := h.index_owner_lt hid
      obtain ⟨depth, rfl⟩ : ∃ d, depth = d + 1 := ⟨depth - 1, by omega⟩
      refine ⟨depth, by simp only [BindingScope.owner]; omega, fun entry hentry => hsub ?_⟩
      refine mem_flatMap.mpr ⟨(name, id), mem_of_binding? hid, mem_cons_of_mem _ ?_⟩
      rwa [if_pos hns]
  obtain ⟨depth, hdepth, hsub⟩ := hreached hinside
  obtain ⟨hlt, hsize⟩ := h.index_owner_lt hbind
  obtain ⟨depth, rfl⟩ : ∃ d, depth = d + 1 := ⟨depth - 1, by omega⟩
  exact hsub (mem_flatMap.mpr ⟨(e.name, e.id), mem_of_binding? hbind, mem_cons_self⟩)

end Bindings

namespace Checking

variable {bound : Bindings} {s s' : State} {entries : List Entry}

/-- What an entry binds a name to in a canonical namespace. -/
def State.contribution (s : State) (canonical : SymbolId) (key : String) (e : Entry) :
    Option SymbolId :=
  if s.mergedSymbol e.scope.owner = canonical ∧ e.name = key then some (s.mergedSymbol e.id)
  else none

/-- The entries have been merged: a canonical namespace stands for each namespace among them and
around them, under its name in what stands for the namespace around it, and the first entry of a
name counts. -/
structure Gathered (bound : Bindings) (entries : List Entry) (s : State) : Prop where
  unified : Unified bound s
  binds {e : Entry} : e ∈ entries → bound.binding? e.scope e.name = some e.id
  owner {e : Entry} : e ∈ entries → s.Joined e.scope.owner
  entered {e : Entry} : e ∈ entries → bound.isNamespace e.id = true → s.Joined e.id
  located {id canonical : SymbolId} : s.mergedSymbols.find? id = some canonical →
    ∃ i outer, bound.identity? id = some i ∧ i.parent = some outer ∧ s.Joined outer ∧
      s.bindings.binding? (.namespaceScope (s.mergedSymbol outer)) i.name = some canonical
  found {canonical : SymbolId} (key : String) : bound.Canonical canonical →
    s.bindings.binding? (.namespaceScope canonical) key =
      (bound.binding? (.namespaceScope canonical) key).or
        (entries.findSome? (s.contribution canonical key))

namespace Gathered

variable (h : Gathered bound entries s)

include h

/-- Namespaces with the same canonical namespace are those with the same path. -/
theorem mergedSymbol_eq_iff (hsit : Situated tree bound) (hid : s.Joined id)
    (hother : s.Joined other) :
    s.mergedSymbol id = s.mergedSymbol other ↔ bound.path id = bound.path other := by
  -- The canonical namespaces of the files are not the global one, and neither are their paths.
  have hglobal : ∀ {id canonical : SymbolId}, s.mergedSymbols.find? id = some canonical →
      s.mergedSymbol id ≠ s.mergedSymbol globalSymbol ∧ bound.path id ≠ bound.path globalSymbol := by
    intro id canonical hfind
    obtain ⟨hold, -, hle, -⟩ := h.unified.merged hfind
    obtain ⟨i, outer, hi, -, -, -⟩ := h.located hfind
    refine ⟨fun heq => ?_, fun heq => hold (.inl (hsit.eq_global_of_path hi heq))⟩
    rw [State.mergedSymbol_of_find hfind, h.unified.mergedSymbol_global] at heq
    have hsize := index_lt_size hsit.global_identity
    rw [heq] at hle
    omega
  induction hindex : id.index using Nat.strongRecOn generalizing id other with
  | ind index ih =>
    rcases hid with rfl | hid <;> rcases hother with rfl | hother
    · simp
    · obtain ⟨canonical, hfind⟩ := isSome_iff_exists.mp hother
      exact ⟨fun heq => absurd heq.symm (hglobal hfind).1,
        fun heq => absurd heq.symm (hglobal hfind).2⟩
    · obtain ⟨canonical, hfind⟩ := isSome_iff_exists.mp hid
      exact ⟨fun heq => absurd heq (hglobal hfind).1, fun heq => absurd heq (hglobal hfind).2⟩
    · obtain ⟨canonical, hfind⟩ := isSome_iff_exists.mp hid
      obtain ⟨canonical', hfind'⟩ := isSome_iff_exists.mp hother
      obtain ⟨i, outer, hi, hpar, houter, hbind⟩ := h.located hfind
      obtain ⟨i', outer', hi', hpar', houter', hbind'⟩ := h.located hfind'
      have houters : s.mergedSymbol outer = s.mergedSymbol outer' ↔
          bound.path outer = bound.path outer' :=
        ih _ (hindex ▸ (hsit.parent hi hpar).1) houter houter' rfl
      rw [hsit.path_of_parent hi hpar, hsit.path_of_parent hi' hpar',
        List.cons.injEq, ← houters, State.mergedSymbol_of_find hfind,
        State.mergedSymbol_of_find hfind']
      constructor
      · rintro rfl
        have hns := (h.unified.merged hfind).2.2.2
        obtain ⟨-, hident⟩ := h.unified.child (h.unified.canonical_of_joined houter).1 hbind hns
        obtain ⟨-, hident'⟩ := h.unified.child (h.unified.canonical_of_joined houter').1 hbind'
          hns
        simpa using hident.symm.trans hident'
      · rintro ⟨hname, heq⟩
        rw [hname, heq] at hbind
        exact mem_unique hbind hbind'

end Gathered

/-! ### Merging enters one entry after the other -/

/-- What stands for a namespace and what an entry contributes depend on the merged symbols alone. -/
theorem Gathered.congr (h : Gathered bound entries s) (huni : Unified bound s')
    (hmerged : s'.mergedSymbols = s.mergedSymbols)
    (hbind : ∀ scope name, s'.bindings.binding? scope name = s.bindings.binding? scope name) :
    Gathered bound entries s' := by
  obtain ⟨_⟩ := s
  obtain ⟨_⟩ := s'
  dsimp only at hmerged
  subst hmerged
  refine ⟨huni, h.binds, h.owner, h.entered, fun hfind => ?_,
    fun key hcanon => (hbind _ _).trans (h.found key hcanon)⟩
  obtain ⟨i, outer, hi, hpar, houter, hfound⟩ := h.located hfind
  exact ⟨i, outer, hi, hpar, houter, (hbind _ _).trans hfound⟩

/-- The answer of a search depends on the members of the list. -/
theorem findSome?_congr {f g : Entry → Option SymbolId} (h : ∀ e ∈ entries, f e = g e) :
    entries.findSome? f = entries.findSome? g := by
  induction entries with
  | nil => rfl
  | cons e rest ih =>
    rw [findSome?_cons, findSome?_cons, h e (.head _), ih fun e he => h e (.tail _ he)]

namespace Gathered

variable (h : Gathered bound entries s) (hsit : Situated tree bound)

include h hsit

/-- Something else than a namespace is bound, unless the name is taken. -/
theorem enterLeaf (htallied : Tallied tree bound) (hcoll : Collected bound s)
    (howner : s.Joined e.scope.owner) (hentry : bound.binding? e.scope e.name = some e.id)
    (hleaf : bound.isNamespace e.id = false) : Gathered bound (entries ++ [e])
      (s.modifyExports (s.mergedSymbol e.scope.owner) (·.set e.name e.id)) := by
  obtain ⟨hcanon, hopen⟩ := h.unified.canonical_of_joined howner
  obtain ⟨-, hbind⟩ := h.unified.addLeaf hsit hcanon hopen hentry hleaf
  obtain ⟨hcoll, -⟩ := hcoll.enterLeaf htallied hsit howner rfl hentry hleaf
  refine ⟨hcoll.unified, fun {x} hx => ?_, fun {x} hx => ?_, fun {x} hx hns => ?_,
    hcoll.located, fun {canonical} key hkey => ?_⟩
  · rcases mem_append.mp hx with hx | hx
    · exact h.binds hx
    · rwa [mem_singleton.mp hx]
  · rcases mem_append.mp hx with hx | hx
    · exact h.owner hx
    · rwa [mem_singleton.mp hx]
  · rcases mem_append.mp hx with hx | hx
    · exact h.entered hx hns
    · simp [mem_singleton.mp hx, hleaf] at hns
  · refine (hbind _ _).trans ?_
    have hself := h.unified.mergedSymbol_of_leaf hleaf
    change _ = Option.or _ ((entries ++ [e]).findSome? (s.contribution canonical key))
    rw [findSome?_append, ← Option.or_assoc, ← h.found key hkey, findSome?_cons,
      State.contribution, hself]
    by_cases heq : canonical = s.mergedSymbol e.scope.owner ∧ key = e.name
    · obtain ⟨rfl, rfl⟩ := heq
      simp
    · have hother : ¬ (s.mergedSymbol e.scope.owner = canonical ∧ e.name = key) := fun hsame =>
        heq ⟨hsame.1.symm, hsame.2.symm⟩
      simp [hother, heq]

/-- Where a namespace goes there is nothing else of its name. -/
theorem isNamespace_of_found (hb : Consistent tree bound) (hclear : bound.Unambiguous)
    (howner : s.Joined e.scope.owner) (hentry : bound.binding? e.scope e.name = some e.id)
    (hns : bound.isNamespace e.id = true)
    (hother : s.bindings.binding? (.namespaceScope (s.mergedSymbol e.scope.owner)) e.name =
      some other) :
    s.bindings.isNamespace other = true := by
  obtain ⟨i, hi, hname, hpar, -⟩ := hsit.entry hentry
  obtain ⟨j, hj, hkind⟩ := isNamespace_iff.mp hns
  obtain rfl := mem_unique hi hj
  have hclash : ∀ (scope : BindingScope) {found : SymbolId}, s.Joined scope.owner →
      s.mergedSymbol scope.owner = s.mergedSymbol e.scope.owner →
      bound.binding? scope e.name = some found → bound.isNamespace found = true := by
    intro scope found hjoined hsame hfound
    refine hclear.isNamespace hsit hb hi hkind hname hpar hfound ?_
    exact ((h.mergedSymbol_eq_iff hsit hjoined howner).mp hsame).symm
  rw [h.found _ (h.unified.canonical_of_joined howner).1] at hother
  rcases or_eq_some_iff.mp hother with hother | ⟨-, hother⟩
  · -- What was bound before all files is in the global namespace.
    have hglobal : s.mergedSymbol e.scope.owner = globalSymbol := by
      refine (h.unified.canonical_of_joined howner).1.resolve_right fun hle => ?_
      have hlt : (s.mergedSymbol e.scope.owner).index < other.index ∧
        other.index < bound.symbols.size := hsit.index_owner_lt hother
      omega
    rw [hglobal] at hother
    rw [h.unified.isNamespace_old (old_of_entry hsit hother).1]
    exact hclash (.namespaceScope globalSymbol) (.inl rfl)
      (h.unified.mergedSymbol_global.trans hglobal.symm) hother
  · obtain ⟨x, hx, hcontrib⟩ := exists_of_findSome?_eq_some hother
    rw [State.contribution] at hcontrib
    split at hcontrib
    next heq =>
      obtain ⟨hsame, hxname⟩ := heq
      cases hcontrib
      have hfound := h.binds hx
      rw [hxname] at hfound
      exact (h.unified.canonical_of_joined (h.entered hx (hclash x.scope (h.owner hx) hsame hfound))).2
    · simp at hcontrib

/-- A namespace is entered: what is bound to its name is its canonical namespace. -/
theorem enterNamespace (htallied : Tallied tree bound) (hcoll : Collected bound s)
    (hb : Consistent tree bound) (hclear : bound.Unambiguous) {symbol : Symbol}
    (howner : s.Joined e.scope.owner) (hentry : bound.binding? e.scope e.name = some e.id)
    (hsym : s.bindings.symbol? e.id = some symbol) (hns : symbol.isNamespace = true) :
    Gathered bound (entries ++ [e])
      (s.enterNamespace (s.mergedSymbol e.scope.owner) (e.name, e.id) symbol).2 := by
  obtain ⟨hcoll, hcolls, hadm⟩ :=
    hcoll.enterNamespace htallied hsit howner rfl hentry hsym hns
  generalize (s.enterNamespace (s.mergedSymbol e.scope.owner) (e.name, e.id) symbol).2 = s' at *
  generalize (s.enterNamespace (s.mergedSymbol e.scope.owner) (e.name, e.id) symbol).1 = canonical
    at *
  obtain ⟨hold, -⟩ := old_of_entry hsit hentry
  have hboundNs : bound.isNamespace e.id = true := by
    rw [← h.unified.isNamespace_old hold, isNamespace, hsym]
    exact hns
  have hkept : ∀ {id : SymbolId}, s.Joined id →
      s'.Joined id ∧ s'.mergedSymbol id = s.mergedSymbol id := hcolls.joined
  have hnow : s'.mergedSymbols.find? e.id = some canonical := by
    rw [hadm.mergedSymbols, OrderedMap.find?_insert, if_pos rfl]
  have hjoined : s'.Joined e.id := Or.inr (isSome_iff_exists.mpr ⟨_, hnow⟩)
  have hself : s'.mergedSymbol e.id = canonical := State.mergedSymbol_of_find hnow
  have htarget := (hkept howner).2
  -- The name is bound to the canonical namespace and nothing else changes.
  have hbind : ∀ scope key, s'.bindings.binding? scope key =
      if scope = .namespaceScope (s.mergedSymbol e.scope.owner) ∧ key = e.name then
        (s.bindings.binding? scope key).or (some canonical)
      else s.bindings.binding? scope key := by
    intro scope key
    rcases hadm.entries with ⟨hsame, -⟩ | ⟨-, hnone, hnew, -⟩
    · rw [hsame]
      split
      next heq =>
        obtain ⟨rfl, rfl⟩ := heq
        rw [← hsame, hadm.found, some_or]
      · rfl
    · rw [hnew]
      split
      next heq =>
        obtain ⟨rfl, rfl⟩ := heq
        cases hfound : s.bindings.binding?
            (.namespaceScope (s.mergedSymbol e.scope.owner)) e.name with
        | none => rfl
        | some other =>
          exact absurd (h.isNamespace_of_found hsit hb hclear howner hentry hboundNs
            hfound) (filter_eq_none_iff.mp hnone other hfound)
      · rfl
  have hcontrib : ∀ {canonical key}, ∀ x ∈ entries,
      s'.contribution canonical key x = s.contribution canonical key x := by
    intro canonical key x hx
    have hid : s'.mergedSymbol x.id = s.mergedSymbol x.id := by
      cases hns : bound.isNamespace x.id with
      | true => exact (hkept (h.entered hx hns)).2
      | false =>
        rw [hcoll.unified.mergedSymbol_of_leaf hns, h.unified.mergedSymbol_of_leaf hns]
    rw [State.contribution, State.contribution, (hkept (h.owner hx)).2, hid]
  refine ⟨hcoll.unified, fun {x} hx => ?_, fun {x} hx => ?_, fun {x} hx hns => ?_,
    hcoll.located, fun {canonical'} key hkey => ?_⟩
  · rcases mem_append.mp hx with hx | hx
    · exact h.binds hx
    · rwa [mem_singleton.mp hx]
  · rcases mem_append.mp hx with hx | hx
    · exact (hkept (h.owner hx)).1
    · rw [mem_singleton.mp hx]
      exact (hkept howner).1
  · rcases mem_append.mp hx with hx | hx
    · exact (hkept (h.entered hx hns)).1
    · rwa [mem_singleton.mp hx]
  · rw [hbind, findSome?_append, ← Option.or_assoc, findSome?_congr hcontrib,
      ← h.found key hkey, findSome?_cons, State.contribution, htarget, hself]
    by_cases heq : canonical' = s.mergedSymbol e.scope.owner ∧ key = e.name
    · obtain ⟨rfl, rfl⟩ := heq
      simp
    · have hother : ¬ (s.mergedSymbol e.scope.owner = canonical' ∧ e.name = key) := fun hsame =>
        heq ⟨hsame.1.symm, hsame.2.symm⟩
      simp [hother, heq]

end Gathered

/-- Merging gathers the entries. -/
theorem gathered_gathers (htallied : Tallied tree bound) (hsit : Situated tree bound)
    (hb : Consistent tree bound) (hclear : bound.Unambiguous) : Gathers bound (Gathered bound) where
  leaf h hcoll howner hentry hleaf := h.enterLeaf hsit htallied hcoll howner hentry hleaf
  entered h hcoll howner hentry hsym hns :=
    h.enterNamespace hsit htallied hcoll hb hclear howner hentry hsym hns
  adopted h _ howner := by
    obtain ⟨huni, hbind⟩ := h.unified.noteDuplicates
      (h.unified.canonical_of_joined howner).1 (SymbolTable.duplicates _).entries rfl
    exact h.congr huni rfl hbind

/-- Before merging, the global namespace has what was bound before all files. -/
theorem Gathered.initial (hc : tree.Complete) (hsit : Situated tree bound)
    (hbinds : s.bindings = bound) (hmerged : s.mergedSymbols = .empty) :
    Gathered bound [] s := by
  refine ⟨.initial hc hsit hbinds hmerged, by simp, by simp, by simp, fun hfind => ?_,
    fun _ _ => ?_⟩
  · simp [hmerged] at hfind
  · rw [hbinds, findSome?_nil, or_none]

end Checking

end ApiSchema
