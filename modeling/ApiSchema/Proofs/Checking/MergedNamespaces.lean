import ApiSchema.Proofs.Binding.Union
import ApiSchema.Proofs.Checking.NamespaceTypes

/-!
# Merged namespaces

Once the files have been merged, all statements of a namespace share one symbol and one type, and
the exports of that symbol are the union of what the statements bind. Namespaces are told apart by
their paths. A name that is bound more than once is what it was bound to first, in the order of the
files; what was bound in the global namespace before all files comes first of all.
-/

namespace ApiSchema

open Option List Tree

namespace Bindings

variable {tree : Tree} {b : Bindings}

/-! ### The tables of a namespace -/

/-- The tables in a file that belong to the namespace of a path: the one of the file itself, for the
global namespace, and those of the namespace statements in it. -/
def reopenings (b : Bindings) (tree : Tree) (path : List String) (file : NodeId) :
    List BindingScope :=
  (if path = b.path globalSymbol then [.file file] else []) ++
    (tree.walk file).filterMap fun n =>
      if tree.isNamespace n then
        ((b.symbolOf? n).filter fun id => b.path id = path).map .namespaceScope
      else none

/-- The tables that belong to the namespace of a path, in the order of the files. For the global
namespace its own table comes first, which holds what does not stand in files. -/
def tablesOf (b : Bindings) (tree : Tree) (path : List String) : List BindingScope :=
  (if path = b.path globalSymbol then [.namespaceScope globalSymbol] else []) ++
    tree.files.flatMap (b.reopenings tree path)

/-- A table that belongs to the namespace of a path is one that can be reached from its file. -/
theorem mem_reopenings_iff (hclear : b.Unambiguous) (hc : tree.Complete) (h : Situated tree b)
    (hb : Consistent tree b) (hunshared : Unshared b) {path : List String} {file : NodeId}
    (hfile : file ∈ tree.files) {scope : BindingScope} :
    scope ∈ b.reopenings tree path file ↔ Inside b file scope ∧ b.path scope.owner = path := by
  obtain ⟨hroot, _, _, hfileKind⟩ := hc.file_root hfile
  rw [reopenings, mem_append, mem_filterMap]
  constructor
  · rintro (hmem | ⟨n, hwalk, hn⟩)
    · split at hmem
      next hpath =>
        rw [mem_singleton.mp hmem]
        exact ⟨.file, hpath.symm⟩
      · simp at hmem
    · split at hn
      next hns =>
        obtain ⟨id, hid, rfl⟩ := map_eq_some_iff.mp hn
        obtain ⟨hid, hpath⟩ := filter_eq_some_iff.mp hid
        have haround := hc.mem_selfAndAncestors_of_mem_walk hwalk
        obtain ⟨parts, hkind⟩ := Tree.isNamespace_iff.mp hns
        have hne : n ≠ Tree.globalNamespace := by
          rintro rfl
          rw [Tree.selfAndAncestors, Tree.WellFormed.ancestors_of_root hc.global_root.1,
            mem_singleton] at haround
          rw [haround, hkind] at hfileKind
          simp at hfileKind
        exact ⟨inside_of_node hclear hc h hb hid hkind hne hfile haround, of_decide_eq_true hpath⟩
      · simp at hn
  · rintro ⟨hinside, hpath⟩
    cases scope with
    | file other =>
      cases hinside
      exact .inl (by simp [← hpath, BindingScope.owner])
    | namespaceScope id =>
      obtain ⟨n, parts, hn, hkind, haround⟩ :=
        exists_node_of_inside hclear hc h hb hunshared hinside
      refine .inr ⟨n, hc.mem_walkWithin haround ?_, ?_⟩
      · have := Tree.index_lt_size_of_kind hfileKind
        omega
      · have hpath' : b.path id = path := hpath
        simp [Tree.isNamespace_iff.mpr ⟨parts, hkind⟩, hn, hpath']

end Bindings

namespace Checking

open Bindings

/-- The node is a statement of the namespace with a symbol. -/
def Opens (program : Program) (n : NodeId) (id : SymbolId) : Prop :=
  program.tree.isNamespace n = true ∧ program.bindings.symbolOf? n = some id

instance (program : Program) (n : NodeId) (id : SymbolId) : Decidable (Opens program n id) :=
  inferInstanceAs (Decidable (_ ∧ _))

/-- Namespaces have been merged by their paths. -/
structure UnionByPath (program : Program) (s : State) : Prop where
  idempotent (id : SymbolId) : s.mergedSymbol (s.mergedSymbol id) = s.mergedSymbol id
  symbol_iff {n m : NodeId} {id other : SymbolId} : Opens program n id → Opens program m other →
    (s.mergedSymbol id = s.mergedSymbol other ↔
      program.bindings.path id = program.bindings.path other)
  type_iff {n m : NodeId} {id other : SymbolId} : Opens program n id → Opens program m other →
    ∃ t t', s.namespaceTypeOf? id = some t ∧ s.namespaceTypeOf? other = some t' ∧
      (t = t' ↔ program.bindings.path id = program.bindings.path other)
  /-- Only namespaces are merged. -/
  leaf {id : SymbolId} : program.bindings.isNamespace id = false → s.mergedSymbol id = id
  /-- The first table that binds a name counts. -/
  exports {n : NodeId} {id : SymbolId} (key : String) : Opens program n id →
    ((s.mergedExports? id).bind fun table => table.find? key) =
      ((program.bindings.tablesOf program.tree (program.bindings.path id)).findSome? fun scope =>
        program.bindings.binding? scope key).map s.mergedSymbol

/-! ### The union -/

variable {tree : Tree} {bound : Bindings} {s : State} {entries : List Entry} {id : SymbolId}

theorem Unified.mergedSymbol_idempotent (h : Unified bound s) (id : SymbolId) :
    s.mergedSymbol (s.mergedSymbol id) = s.mergedSymbol id := by
  cases hfind : s.mergedSymbols.find? id with
  | none =>
    have hself : s.mergedSymbol id = id := by rw [State.mergedSymbol, hfind, getD_none]
    rw [hself, hself]
  | some canonical =>
    rw [State.mergedSymbol_of_find hfind]
    cases hagain : s.mergedSymbols.find? canonical with
    | none => rw [State.mergedSymbol, hagain, getD_none]
    | some other =>
      obtain ⟨-, -, hle, -⟩ := h.merged hfind
      exact absurd (Or.inr hle) (h.merged hagain).1

/-- If all answers to a search are the same, then any of them is the one that is found. -/
theorem findSome?_eq_of_unique {α β : Type} {f : α → Option β} {xs : List α} {x : α} {y : β}
    (hx : x ∈ xs) (hy : f x = some y) (hunique : ∀ x' ∈ xs, ∀ y', f x' = some y' → y' = y) :
    xs.findSome? f = some y := by
  cases hfound : xs.findSome? f with
  | none => simp [findSome?_eq_none_iff.mp hfound x hx] at hy
  | some z =>
    obtain ⟨x', hx', hz⟩ := exists_of_findSome?_eq_some hfound
    rw [hunique x' hx' z hz]

section

variable (hclear : bound.Unambiguous) (hc : tree.Complete) (hsit : Situated tree bound)
  (hb : Consistent tree bound) (hunshared : Unshared bound)

include hclear hc hsit hb

/-- All namespaces of the files have been entered. -/
theorem Gathered.joined_of_node (h : Gathered bound (tree.files.flatMap bound.entries) s)
    {n : NodeId} (hn : bound.symbolOf? n = some id) (hns : tree.isNamespace n = true) :
    s.Joined id := by
  obtain ⟨parts, hkind⟩ := isNamespace_iff.mp hns
  by_cases hne : n = globalNamespace
  · obtain rfl := hne
    exact .inl (mem_unique hn hsit.global_node)
  · obtain ⟨file, hfile, haround⟩ := hsit.exists_file hc hn hkind hne
    cases inside_of_node hclear hc hsit hb hn hkind hne hfile haround with
    | @nested scope name _ hscope hid hisNs =>
      have hentry : (⟨scope, name, id⟩ : Entry) ∈ tree.files.flatMap bound.entries :=
        mem_flatMap.mpr ⟨file, hfile, hsit.mem_entries_iff.mpr ⟨hscope, hid⟩⟩
      exact h.entered hentry hisNs

include hunshared

/-- What the entries of a file contribute to a namespace is what its tables in that file bind. -/
theorem Gathered.findSome?_entries (h : Gathered bound entries s) {file : NodeId}
    (hfile : file ∈ tree.files) (hentries : bound.entries file ⊆ entries) (hid : s.Joined id)
    (key : String) :
    (bound.entries file).findSome? (s.contribution (s.mergedSymbol id) key) =
      ((bound.reopenings tree (bound.path id) file).findSome? fun scope =>
        bound.binding? scope key).map s.mergedSymbol := by
  have hreopening : ∀ {scope : BindingScope}, scope ∈ bound.reopenings tree (bound.path id) file ↔
      Inside bound file scope ∧ bound.path scope.owner = bound.path id :=
    mem_reopenings_iff hclear hc hsit hb hunshared hfile
  -- An entry contributes if its table belongs to the namespace.
  have hcontrib : ∀ {e : Entry} {found : SymbolId}, e ∈ bound.entries file →
      s.contribution (s.mergedSymbol id) key e = some found →
      e.scope ∈ bound.reopenings tree (bound.path id) file ∧
        bound.binding? e.scope key = some e.id ∧ s.mergedSymbol e.id = found := by
    intro e found he hfound
    obtain ⟨hinside, hbind⟩ := hsit.mem_entries_iff.mp he
    rw [State.contribution] at hfound
    split at hfound
    next heq =>
      have hpath := (h.mergedSymbol_eq_iff hsit (h.owner (hentries he)) hid).mp heq.1
      exact ⟨hreopening.mpr ⟨hinside, hpath⟩, heq.2 ▸ hbind, Option.some.inj hfound⟩
    · simp at hfound
  cases hfirst : (bound.reopenings tree (bound.path id) file).findSome?
      fun scope => bound.binding? scope key with
  | none =>
    refine findSome?_eq_none_iff.mpr fun e he => eq_none_iff_forall_ne_some.mpr ?_
    intro found hfound
    obtain ⟨hmem, hbind, -⟩ := hcontrib he hfound
    simp [findSome?_eq_none_iff.mp hfirst e.scope hmem] at hbind
  | some found =>
    obtain ⟨scope, hscope, hbind⟩ := exists_of_findSome?_eq_some hfirst
    obtain ⟨hinside, hpath⟩ := hreopening.mp hscope
    have hentry : (⟨scope, key, found⟩ : Entry) ∈ bound.entries file :=
      hsit.mem_entries_iff.mpr ⟨hinside, hbind⟩
    refine findSome?_eq_of_unique hentry ?_ fun e he other hother => ?_
    · have hsame := (h.mergedSymbol_eq_iff hsit (h.owner (hentries hentry)) hid).mpr hpath
      simp only at hsame
      simp [State.contribution, hsame]
    · -- A file has one table for the path at most.
      obtain ⟨hmem, hother', rfl⟩ := hcontrib he hother
      obtain ⟨hinside', hpath'⟩ := hreopening.mp hmem
      rw [hinside'.eq_of_path hsit hinside (hpath'.trans hpath.symm), hbind] at hother'
      rw [Option.some.inj hother']

/-- The exports of a merged namespace are what its tables bind. -/
theorem Gathered.binding_eq (h : Gathered bound (tree.files.flatMap bound.entries) s)
    {i : Symbol.Identity} (hi : bound.identity? id = some i) (hid : s.Joined id) (key : String) :
    s.bindings.binding? (.namespaceScope (s.mergedSymbol id)) key =
      ((bound.tablesOf tree (bound.path id)).findSome? fun scope =>
        bound.binding? scope key).map s.mergedSymbol := by
  have hfiles : ∀ files : List NodeId, files ⊆ tree.files →
      (files.flatMap bound.entries).findSome? (s.contribution (s.mergedSymbol id) key) =
        ((files.flatMap (bound.reopenings tree (bound.path id))).findSome? fun scope =>
          bound.binding? scope key).map s.mergedSymbol := by
    intro files
    induction files with
    | nil => intro _; rfl
    | cons file rest ih =>
      intro hsub
      have hfile := hsub (.head _)
      rw [flatMap_cons, flatMap_cons, findSome?_append, findSome?_append,
        map_or, ih (subset_of_cons_subset hsub),
        h.findSome?_entries hclear hc hsit hb hunshared hfile
          (fun _ he => mem_flatMap.mpr ⟨file, hfile, he⟩) hid key]
  rw [h.found key (h.unified.canonical_of_joined hid).1, hfiles _ (List.Subset.refl _), tablesOf,
    findSome?_append, map_or]
  congr 1
  split
  next hpath =>
    obtain rfl := hsit.eq_global_of_path hi hpath
    rw [h.unified.mergedSymbol_global, findSome?_singleton]
    cases hfound : bound.binding? (.namespaceScope globalSymbol) key with
    | none => rfl
    | some found =>
      rw [map_some, h.unified.mergedSymbol_of_leaf
        (hsit.isNamespace_global_entry hc hfound)]
  next hpath =>
    have hglobal : s.mergedSymbol id ≠ globalSymbol := fun heq => hpath
      ((h.mergedSymbol_eq_iff hsit hid (.inl rfl)).mp
        (heq.trans h.unified.mergedSymbol_global.symm))
    cases hfound : bound.binding? (.namespaceScope (s.mergedSymbol id)) key with
    | none => rfl
    | some found =>
      have hle := (h.unified.canonical_of_joined hid).1.resolve_left hglobal
      have hlt : (s.mergedSymbol id).index < found.index ∧ found.index < bound.symbols.size :=
        hsit.index_owner_lt hfound
      omega

end

/-! ### Prepared states -/

variable {env : Environment}

/-- After the files have been merged everything in them has been entered. -/
theorem Prepared.gathered (h : Prepared env bound s) (hc : env.tree.Complete)
    (htallied : Tallied env.tree bound) (hsit : Situated env.tree bound)
    (hb : Consistent env.tree bound) (hclear : bound.Unambiguous) :
    Gathered bound (env.tree.files.flatMap bound.entries) s := by
  obtain ⟨s₁, himps, hbinds, hmerged⟩ := h.merged
  obtain ⟨heq, hsyms, hfileExp⟩ := imports_keep himps
  have hstart : Gathered bound [] { State.initial bound with initialized := true } :=
    .initial hc hsit rfl rfl
  obtain ⟨hall, -⟩ := mergeFiles_absorbs htallied hsit
    (gathered_gathers htallied hsit hb hclear) env.tree.files
    (.initial htallied hsit hc (s := { State.initial bound with initialized := true }) rfl rfl)
  refine (hall.gathers hstart).congr h.unified (by rw [hmerged, heq]) fun scope name => ?_
  rw [hbinds]
  refine binding?_congr hfileExp (fun id => ?_) name
  rw [exports?, exports?, symbol?, symbol?, hsyms]

variable {program : Program}

/-- Merging makes the union by path. -/
theorem Prepared.unionByPath (h : Prepared program.environment program.bindings s)
    (hc : program.tree.Complete) (hclear : program.bindings.Unambiguous) :
    UnionByPath program s := by
  have hsit := program.bindings_situated hc
  have hb := declaring_consistent hc program.registry.paths
  have hgathered := h.gathered hc (declaring_tallied hc _) hsit hb hclear
  have hjoined : ∀ {n : NodeId} {id : SymbolId}, Opens program n id → s.Joined id :=
    fun hopens => hgathered.joined_of_node hclear hc hsit hb hopens.2 hopens.1
  have hpath : ∀ {n m : NodeId} {id other : SymbolId}, Opens program n id →
      Opens program m other → (s.mergedSymbol id = s.mergedSymbol other ↔
        program.bindings.path id = program.bindings.path other) :=
    fun hn hm => hgathered.mergedSymbol_eq_iff hsit (hjoined hn) (hjoined hm)
  constructor
  · exact h.unified.mergedSymbol_idempotent
  · exact hpath
  · intro n m id other hn hm
    obtain ⟨parts, hkind⟩ := isNamespace_iff.mp hn.1
    obtain ⟨parts', hkind'⟩ := isNamespace_iff.mp hm.1
    obtain ⟨t, ht⟩ := h.typed hkind id hn.2
    obtain ⟨t', ht'⟩ := h.typed hkind' other hm.2
    refine ⟨t, t', ht, ht', Iff.trans ⟨fun heq => ?_, fun heq => ?_⟩ (hpath hn hm)⟩
    · exact h.distinct ht (heq ▸ ht')
    · rw [State.namespaceTypeOf?, heq] at ht
      exact mem_unique ht ht'
  · exact h.unified.mergedSymbol_of_leaf
  · intro n id key hn
    obtain ⟨i, hi, -⟩ := isNamespace_iff.mp
      (hsit.isNamespace_of_node hc (isNamespace_iff.mp hn.1).choose_spec hn.2)
    exact hgathered.binding_eq hclear hc hsit hb (program.bindings_unshared hc) hi (hjoined hn)
      key

/-- Checks leave the union as it is. -/
theorem UnionByPath.frame {s' : State} (h : UnionByPath program s) (hframe : Frame none s s') :
    UnionByPath program s' := by
  have htype : s'.namespaceTypeOf? = s.namespaceTypeOf? := funext hframe.namespaceTypeOf
  obtain ⟨hbinds, hmerged, -⟩ := hframe.toRetains
  cases s
  cases s'
  simp only at hbinds hmerged
  subst hbinds hmerged
  exact { h with type_iff := htype ▸ h.type_iff }

/-- If no namespace shares its path with something else, then merging the files is union by path,
and remains so whatever is checked. -/
theorem merging_is_union_by_path (options : Options) (registry : Registry)
    (files : List SourceFile)
    (hclear : (Program.ofFiles options registry files).bindings.Unambiguous) :
    ∃ s, prepare (Program.ofFiles options registry files).environment
        (.initial (Program.ofFiles options registry files).bindings) = some ((), s) ∧
      ∀ s', Checked (Program.ofFiles options registry files).environment s s' →
        UnionByPath (Program.ofFiles options registry files) s' := by
  have hc : (Program.ofFiles options registry files).environment.tree.Complete :=
    ofFiles_complete files
  obtain ⟨s, hprepare, hprepared⟩ := exists_prepared hc registry.paths
  exact ⟨s, hprepare, fun s' hchecked =>
    (hprepared.unionByPath hc hclear).frame (hchecked.frame hc.toWellFormed)⟩

/-- A namespace of two files, in one of them under a dotted name and in the other one inside a
blockless namespace. -/
def markets : Program :=
  .ofFiles .default (Documentation.install .empty) [
    ⟨"fruit", [.namespaceDecl "Store.Food" false [.model "Apple" []] []]⟩,
    ⟨"bakery", [.namespaceDecl "Store" true [] [],
      .namespaceDecl "Food" false
        [.model "Apple" [], .model "Bread" []] []]⟩]

/-- The two statements share a symbol, which is not that of the namespace around them. It exports
the apples of the first file and the bread of the second one. -/
theorem merging_is_union_by_path_markets :
    markets.bindings.Unambiguous ∧
      ∃ s, prepare markets.environment (.initial markets.bindings) = some ((), s) ∧
        s.mergedSymbol ⟨21⟩ = s.mergedSymbol ⟨24⟩ ∧ s.mergedSymbol ⟨20⟩ ≠ s.mergedSymbol ⟨21⟩ ∧
        ((s.mergedExports? ⟨24⟩).bind fun table => table.find? "Apple") = some ⟨22⟩ ∧
        ((s.mergedExports? ⟨21⟩).bind fun table => table.find? "Bread") = some ⟨26⟩ := by
  have hclear : markets.bindings.Unambiguous := by decide +kernel
  obtain ⟨s, hprepare, hunion⟩ := merging_is_union_by_path _ _ _ hclear
  have hs : UnionByPath markets s := hunion s .refl
  have hstore : Opens markets ⟨22⟩ ⟨20⟩ := by decide +kernel
  have hfruit : Opens markets ⟨21⟩ ⟨21⟩ := by decide +kernel
  have hbakery : Opens markets ⟨27⟩ ⟨24⟩ := by decide +kernel
  refine ⟨hclear, s, hprepare, (hs.symbol_iff hfruit hbakery).mpr (by decide +kernel),
    fun heq => ?_, ?_, ?_⟩
  · exact absurd ((hs.symbol_iff hstore hfruit).mp heq) (by decide +kernel)
  · rw [hs.exports "Apple" hbakery, show (markets.bindings.tablesOf markets.tree
      (markets.bindings.path ⟨24⟩)).findSome? (fun scope => markets.bindings.binding? scope "Apple") =
        some ⟨22⟩ by decide +kernel, map_some, hs.leaf (by decide +kernel)]
  · rw [hs.exports "Bread" hfruit, show (markets.bindings.tablesOf markets.tree
      (markets.bindings.path ⟨21⟩)).findSome? (fun scope => markets.bindings.binding? scope "Bread") =
        some ⟨26⟩ by decide +kernel, map_some, hs.leaf (by decide +kernel)]

end Checking

end ApiSchema
