import ApiSchema.Proofs.Binding.Contests
import ApiSchema.Proofs.Checking.Session
import ApiSchema.Proofs.Syntax.Walk

/-!
# The types of namespaces

When the files have been merged every namespace of the files gets a type, unless another statement
of the same merged namespace has one already. A namespace statement is reached after the statement
of the namespace around it, so that there always is a type to list the new one in.
-/

namespace ApiSchema

open Tree Option List

variable {n node : NodeId} {name : String} {before after rest : List (NodeId × String)} {u : Unit}

namespace Bindings

variable {tree : Tree} {b : Bindings}

/-! ### Namespaces come after those around them -/

/-- The namespace that a namespace statement belongs to is the global one or has a statement that
comes before. -/
theorem Site.owner_precedes {scope : BindingScope} {parts : NamespaceNode} {i : Symbol.Identity}
    {id : SymbolId} (h : Site tree b n scope (.namespaceStatement parts) i id) (hc : tree.Complete) :
    scope.owner = globalSymbol ∨ ∃ m outer,
      b.symbolOf? m = some scope.owner ∧ tree.kind? m = some (.namespaceStatement outer) ∧
        Precedes (tree.files.flatMap tree.walk) m n := by
  have hnot : ∀ file ∈ tree.files, n ≠ file := by
    rintro file hfile rfl
    obtain ⟨-, _, _, hother⟩ := hc.file_root hfile
    simp [h.kind] at hother
  cases h.scopes with
  | intrinsic | file => exact .inl rfl
  | @captured file _ m name before after symbol hfile hstmts hcaptor hm =>
    obtain ⟨⟨outer, houter, -⟩, statement, hmem, hinside⟩ := hc.captor?_spec hcaptor
    refine .inr ⟨m, outer, hm, houter, .flatMap fun root hroot => ?_⟩
    by_cases heq : root = file
    · exact heq ▸ hc.statement_precedes hstmts hmem hinside
    · refine .of_not_mem fun hwalk => heq ?_
      have hpar : tree.parent? n = some file := hc.parent_of_mem
        (by simp [children, hstmts])
      have hroots := hc.mem_selfAndAncestors_of_mem_walk hwalk
      rw [hc.selfAndAncestors_of_parent hpar, selfAndAncestors,
        Tree.WellFormed.ancestors_of_root (hc.file_root hfile).1, mem_cons, mem_singleton] at hroots
      exact hroots.resolve_left (Ne.symm (hnot root hroot))
  | @block _ m outer symbol houter _ hmem hm =>
    refine .inr ⟨m, outer, hm, houter, .flatMap fun root hroot => ?_⟩
    exact hc.parent_precedes (hc.parent_of_statement houter hmem) (hnot root hroot)

end Bindings

namespace Checking

open Bindings

variable {env : Environment} {bound : Bindings} {merged : Bool} {s s' s₁ : State}

/-! ### One namespace statement -/

/-- No two namespaces have the same type. -/
def State.DistinctNamespaces (s : State) : Prop :=
  ∀ {id other : SymbolId} {t : TypeId}, (s.linksOf id).namespaceType = some t →
    (s.linksOf other).namespaceType = some t → id = other

/-- There is a type for the namespace around a namespace statement, if that has a symbol. -/
def State.Sheltered (s : State) (node : NodeId) : Prop :=
  ∀ symbol, s.bindings.symbolOf? node = some symbol →
    ∃ parent, s.parentNamespaceType? node = some parent

/-- Between the states the namespace of a node got a type, if it had none. -/
structure TypesNamespace (node : NodeId) (s s' : State) : Prop where
  bindings : s'.bindings = s.bindings
  mergedSymbols : s'.mergedSymbols = s.mergedSymbols
  kept {id : SymbolId} {t : TypeId} : (s.linksOf id).namespaceType = some t →
    (s'.linksOf id).namespaceType = some t
  distinct : s.DistinctNamespaces → s'.DistinctNamespaces
  typed {symbol : SymbolId} : s.Sheltered node → s.bindings.symbolOf? node = some symbol →
    ∃ t, s'.namespaceTypeOf? symbol = some t
  faultless : s.Sheltered node → s'.errors = s.errors ∧ s'.failure = s.failure

theorem TypesNamespace.namespaceTypeOf (h : TypesNamespace node s s') {symbol : SymbolId}
    {t : TypeId} (ht : s.namespaceTypeOf? symbol = some t) :
    s'.namespaceTypeOf? symbol = some t := by
  rw [State.namespaceTypeOf?, State.mergedSymbol, h.mergedSymbols]
  exact h.kept ht

/-- A namespace gets a type once. -/
theorem createNamespaceType_types (hblank : Blank env bound merged s)
    (hrun : createNamespaceType node name env s = some (u, s')) : TypesNamespace node s s' := by
  rcases createNamespaceType_cases hrun with ⟨rfl, htyped⟩ | ⟨rfl, ⟨symbol, hsym⟩, hnone⟩ |
    ⟨symbol, parent, hsym, hnone, -, rfl⟩
  · exact ⟨rfl, rfl, id, id, fun _ hsym => isSome_iff_exists.mp (htyped _ hsym),
      fun _ => ⟨rfl, rfl⟩⟩
  · have hexposed : ¬ s.Sheltered node := fun hsheltered => by
      obtain ⟨parent, hpar⟩ := hsheltered symbol hsym
      simp [hnone] at hpar
    exact ⟨rfl, rfl, id, id, fun hsheltered => absurd hsheltered hexposed,
      fun hsheltered => absurd hsheltered hexposed⟩
  · have hlinks : ∀ id, ((s.modifyLinks (s.mergedSymbol symbol) fun links =>
        { links with namespaceType := some s.types.nextId }).linksOf id).namespaceType =
          if id = s.mergedSymbol symbol then some s.types.nextId
          else (s.linksOf id).namespaceType := fun id => by
      rw [linksOf_modifyLinks]
      split <;> rfl
    have hnew : ∀ {id}, (s.linksOf id).namespaceType ≠ some s.types.nextId := fun {id} ht => by
      obtain ⟨_, hshape⟩ := hblank.namespaceType ht
      obtain ⟨row, hrow, -⟩ := map_eq_some_iff.mp hshape
      exact TypeTable.not_has_nextId ⟨row, hrow⟩
    refine ⟨rfl, rfl, fun {id t} ht => ?_, fun hdist {id other t} hid hother => ?_,
      fun {other} _ hother => ⟨s.types.nextId, ?_⟩, fun _ => ⟨rfl, rfl⟩⟩
    · refine (hlinks id).trans ((if_neg ?_).trans ht)
      rintro rfl
      exact absurd (hnone.symm.trans ht) (by simp)
    · replace hid := (hlinks id).symm.trans hid
      replace hother := (hlinks other).symm.trans hother
      split at hid <;> split at hother <;> rename_i heq heq'
      · rw [heq, heq']
      · exact absurd (hother.trans hid.symm) hnew
      · exact absurd (hid.trans hother.symm) hnew
      · exact hdist hid hother
    · obtain rfl := mem_unique hsym hother
      exact (hlinks _).trans (if_pos rfl)

/-! ### All namespace statements -/

/-- The namespace statements are reached in the order of a walk over the files. -/
theorem mem_of_precedes {tree : Tree} {m : NodeId} {outer : NamespaceNode}
    (hsplit : namespaceStatements tree = before ++ (n, name) :: after)
    (hprecedes : Precedes (tree.files.flatMap tree.walk) m n)
    (hkind : tree.kind? m = some (.namespaceStatement outer)) (hne : m ≠ globalNamespace) :
    ∃ entry ∈ before, entry.1 = m := by
  obtain ⟨first, second, hnodes, hfirst, hsecond⟩ := filterMap_eq_append_iff.mp hsplit
  obtain ⟨skipped, node, rest, rfl, hskipped, hnode, -⟩ := filterMap_eq_cons_iff.mp hsecond
  obtain rfl : node = n := by
    split at hnode
    · split at hnode
      · simp at hnode
      · exact (Prod.mk.inj (Option.some.inj hnode)).1
    · simp at hnode
  rcases mem_append.mp (hprecedes (first ++ skipped) rest (by simp [hnodes])) with hm | hm
  · refine ⟨(m, outer.name), ?_, rfl⟩
    rw [← hfirst, mem_filterMap]
    exact ⟨m, hm, by simp [hkind, hne]⟩
  · simpa [hkind, hne] using hskipped m hm

/-- The namespace that a node was bound to has a type. -/
def Typed (bound : Bindings) (s : State) (n : NodeId) : Prop :=
  ∀ symbol, bound.symbolOf? n = some symbol → ∃ t, s.namespaceTypeOf? symbol = some t

section

variable (hc : env.tree.Complete) (hsit : Situated env.tree bound)

include hc hsit

/-- When all namespace statements before it have got types, there is a type for the namespace around
a namespace statement. -/
theorem sheltered_of_before (hsplit : namespaceStatements env.tree = before ++ (n, name) :: after)
    (hblank : Blank env bound merged s) (hglobal : ∃ t, s.namespaceTypeOf? globalSymbol = some t)
    (hbefore : ∀ entry ∈ before, Typed bound s entry.1) : s.Sheltered n := by
  intro symbol hsym
  replace hsym : bound.symbolOf? n = some symbol := by
    rwa [Bindings.symbolOf?, hblank.nodeSymbols] at hsym
  obtain ⟨parts, hkind, hne⟩ : ∃ parts, env.tree.kind? n = some (.namespaceStatement parts) ∧
      n ≠ globalNamespace := by
    have hmem : (n, name) ∈ namespaceStatements env.tree := by simp [hsplit]
    obtain ⟨node, -, hnode⟩ := mem_filterMap.mp hmem
    split at hnode
    next parts hkind =>
      split at hnode
      · simp at hnode
      next hne =>
        cases hnode
        exact ⟨parts, hkind, hne⟩
    · simp at hnode
  obtain ⟨scope, i, hsite⟩ := hsit.site_of_namespace hc hsym hkind hne
  have howner : ∃ t, s.namespaceTypeOf? scope.owner = some t := by
    rcases hsite.owner_precedes hc with heq | ⟨m, outer, hm, houter, hprecedes⟩
    · rwa [heq]
    · by_cases hroot : m = globalNamespace
      · obtain rfl := hroot
        rwa [mem_unique hm hsit.global_node]
      · obtain ⟨entry, hmem, rfl⟩ := mem_of_precedes hsplit hprecedes houter hroot
        exact hbefore entry hmem _ hm
  obtain ⟨parent, hpar⟩ := howner
  refine ⟨parent, ?_⟩
  rw [State.parentNamespaceType?, Bindings.namespaceOf?, hblank.namespaceSymbols]
  exact (congrArg (fun o => o.bind s.namespaceTypeOf?) hsite.located).trans hpar

/-- All namespaces of the files get types, and nothing goes wrong. -/
theorem createNamespaceTypes_typed {u : PUnit}
    (hsplit : namespaceStatements env.tree = before ++ rest) (hblank : Blank env bound merged s)
    (hdist : s.DistinctNamespaces) (hglobal : ∃ t, s.namespaceTypeOf? globalSymbol = some t)
    (hbefore : ∀ entry ∈ before, Typed bound s entry.1)
    (hrun : rest.forM (fun entry => createNamespaceType entry.1 entry.2) env s = some (u, s')) :
    s'.bindings = s.bindings ∧ s'.mergedSymbols = s.mergedSymbols ∧ s'.DistinctNamespaces ∧
      (∃ t, s'.namespaceTypeOf? globalSymbol = some t) ∧
        (∀ entry ∈ namespaceStatements env.tree, Typed bound s' entry.1) ∧
          s'.errors = s.errors ∧ s'.failure = s.failure := by
  induction rest generalizing s before with
  | nil =>
    obtain rfl := run_forM_nil.mp hrun
    exact ⟨rfl, rfl, hdist, hglobal, by simpa [hsplit] using hbefore, rfl, rfl⟩
  | cons entry rest ih =>
    obtain ⟨s₁, hfirst, hrest⟩ := run_forM_cons.mp hrun
    have htypes := createNamespaceType_types hblank hfirst
    have hsheltered := sheltered_of_before hc hsit hsplit hblank hglobal hbefore
    have hnow : Typed bound s₁ entry.1 := fun symbol hsym =>
      htypes.typed hsheltered (by rwa [Bindings.symbolOf?, hblank.nodeSymbols])
    obtain ⟨herrors, hfail⟩ := htypes.faultless hsheltered
    obtain ⟨t, ht⟩ := hglobal
    have hsplit' : namespaceStatements env.tree = (before ++ [entry]) ++ rest := by simp [hsplit]
    obtain ⟨hbinds, hmerged, hdist', hglobal', htyped, herrors', hfail'⟩ := ih hsplit'
      (hblank.createNamespaceType hfirst) (htypes.distinct hdist)
      ⟨t, htypes.namespaceTypeOf ht⟩ (fun other hother => by
        rcases mem_append.mp hother with hother | hother
        · exact fun symbol hsym => (hbefore other hother symbol hsym).imp fun _ => htypes.namespaceTypeOf
        · rwa [mem_singleton.mp hother]) hrest
    exact ⟨hbinds.trans htypes.bindings, hmerged.trans htypes.mergedSymbols, hdist', hglobal',
      htyped, herrors'.trans herrors, hfail'.trans hfail⟩

end

/-! ### Prepared states -/

/-- Importing names changes nothing but local names, apart from reports. -/
theorem imports_keep (h : Relation.ReflTransGen Imports s s') :
    s' = { s with bindings := s'.bindings, diagnostics := s'.diagnostics } ∧
      s'.bindings.symbols = s.bindings.symbols ∧
        s'.bindings.fileExports = s.bindings.fileExports := by
  induction h with
  | refl => exact ⟨rfl, rfl, rfl⟩
  | tail _ hstep ih =>
    obtain ⟨heq, hsyms, hfileExp⟩ := ih
    cases hstep with
    | quiet hquiet =>
      refine ⟨?_, ?_, ?_⟩
      · rw [hquiet.eq, heq]
      · rw [hquiet.bindings, hsyms]
      · rw [hquiet.bindings, hfileExp]
    | names => exact ⟨by rw [heq, State.withImports], hsyms, hfileExp⟩

/-- Merging files and importing names changes only what names stand for, apart from reports. -/
theorem merge_eq {s₁ : State}
    (himps : Relation.ReflTransGen Imports
      (State.mergeFiles { s with initialized := true } env.tree.files) s₁) :
    s₁ = { s with
      initialized := true
      bindings := s₁.bindings
      mergedSymbols := s₁.mergedSymbols
      diagnostics := s₁.diagnostics } := by
  rw [(imports_keep himps).1, State.mergeFiles_enters]

/-- What each namespace that gets a type preserves of the type table holds when all have got one. -/
theorem prepare_types {P : TypeTable → Prop} (hwf : env.tree.WellFormed)
    (hblank : Blank env bound merged s) (h : P s.types)
    (hstep : ∀ {s s' : State} {node : NodeId} {name : String} {u : Unit}, Blank env bound true s →
      P s.types → createNamespaceType node name env s = some (u, s') → P s'.types)
    (hrun : prepare env s = some (u, s')) : P s'.types := by
  rcases prepare_cases hwf hrun with ⟨-, rfl⟩ | ⟨-, s₁, himps, hnss⟩
  · exact h
  · have hblank₁ := hblank.merge himps
    have h₁ : P s₁.types := by rwa [merge_eq himps]
    exact (forM_preserves (P := fun s => Blank env bound true s ∧ P s.types) ⟨hblank₁, h₁⟩
      (fun h hrun => ⟨h.1.createNamespaceType hrun, hstep h.1 h.2 hrun⟩) hnss).2

/-- The files have been merged, and nothing has been checked. -/
structure Prepared (env : Environment) (bound : Bindings) (s : State) : Prop where
  blank : Blank env bound true s
  merged : ∃ s₁, Relation.ReflTransGen Imports
      (State.mergeFiles { State.initial bound with initialized := true } env.tree.files) s₁ ∧
    s.bindings = s₁.bindings ∧ s.mergedSymbols = s₁.mergedSymbols
  unified : Unified bound s
  distinct : s.DistinctNamespaces
  typed {n : NodeId} {parts : NamespaceNode} :
    env.tree.kind? n = some (.namespaceStatement parts) → Typed bound s n
  errors : s.errors = []
  failure : s.failure = none

section

variable (hc : env.tree.Complete) (hsit : Situated env.tree bound)
  (htallied : Tallied env.tree bound)

include hc hsit htallied

/-- Merging files makes canonical namespaces, of which only the global one has a type. -/
theorem merge_unified
    (himps : Relation.ReflTransGen Imports
      (State.mergeFiles { State.initial bound with initialized := true } env.tree.files) s) :
    Unified bound s ∧ (∀ id, (s.linksOf id).namespaceType =
      if id = globalSymbol then some globalType else none) ∧ s.errors = [] ∧ s.failure = none := by
  obtain ⟨heq, hsyms, hfileExp⟩ := imports_keep himps
  have hinit : Collected bound { State.initial bound with initialized := true } :=
    .initial htallied hsit hc rfl rfl
  have hmerged : s.mergedSymbols = (State.mergeFiles
      { State.initial bound with initialized := true } env.tree.files).mergedSymbols := by
    rw [heq]
  have hkept := merge_eq himps
  refine ⟨(mergeFiles_absorbs htallied hsit (.trivial bound) env.tree.files
    hinit).1.collected.unified.congr hsyms hfileExp hmerged, fun id => ?_,
    congrArg State.errors hkept, congrArg State.failure hkept⟩
  rw [State.linksOf, congrArg State.links hkept]
  change (Option.getD ((State.initial bound).links.find? id) Links.unknown).namespaceType = _
  rw [State.initial, OrderedMap.find?_insert]
  split <;> rfl

/-- Preparing gives a type to every namespace of the files, and different types to different
namespaces. -/
theorem prepare_prepared (hblank : Blank env bound false (.initial bound))
    (hrun : prepare env (State.initial bound) = some (u, s)) : Prepared env bound s := by
  rcases prepare_cases hc.toWellFormed hrun with ⟨htrue, -⟩ | ⟨-, s₁, himps, htypes⟩
  · exact absurd htrue (by simp [State.initial])
  obtain ⟨huni, hnss, herrors, hfail⟩ := merge_unified hc hsit htallied himps
  have hdist : s₁.DistinctNamespaces := fun {id other t} hid hother => by
    rw [hnss] at hid hother
    split at hid <;> split at hother <;> simp_all
  have hglobal : s₁.namespaceTypeOf? globalSymbol = some globalType := by
    rw [State.namespaceTypeOf?, huni.mergedSymbol_global, hnss, if_pos rfl]
  obtain ⟨hbinds, hmerged, hdist', hglobal', htyped, herrors', hfail'⟩ :=
    createNamespaceTypes_typed hc hsit (nil_append _).symm (hblank.merge himps) hdist
      ⟨_, hglobal⟩ (by simp) htypes
  refine ⟨hblank.prepare hc.toWellFormed hrun, ⟨s₁, himps, hbinds, hmerged⟩,
    huni.congr (by rw [hbinds]) (by rw [hbinds]) hmerged, hdist',
    fun {n parts} hkind symbol hsym => ?_, herrors'.trans herrors, hfail'.trans hfail⟩
  by_cases hne : n = globalNamespace
  · obtain rfl := hne
    rwa [mem_unique hsym hsit.global_node]
  · obtain ⟨file, hfile, hroot⟩ := hsit.exists_file hc hsym hkind hne
    have hwalk : n ∈ env.tree.walk file := hc.mem_walkWithin hroot (by
      obtain ⟨-, _, _, hfileKind⟩ := hc.file_root hfile
      have := index_lt_size_of_kind hfileKind
      omega)
    exact htyped (n, parts.name) (mem_filterMap.mpr ⟨n, mem_flatMap.mpr ⟨file, hfile,
      hwalk⟩, by simp [hkind, hne]⟩) symbol hsym

end

theorem declaring_prepared (hc : env.tree.Complete) {paths : List String}
    (hrun : prepare env (.initial (.declaring env.tree paths)) = some (u, s)) :
    Prepared env (.declaring env.tree paths) s :=
  prepare_prepared hc (declaring_situated hc paths) (declaring_tallied hc paths)
    (.initial (declaring_consistent hc paths)) hrun

/-- Files can be prepared, whatever decorators have been declared. -/
theorem exists_prepared (hc : env.tree.Complete) (paths : List String) :
    ∃ s, prepare env (.initial (.declaring env.tree paths)) = some ((), s) ∧
      Prepared env (.declaring env.tree paths) s := by
  obtain ⟨⟨⟩, s, hrun⟩ := prepare_ends hc.toWellFormed (.initial (.declaring env.tree paths))
  exact ⟨s, hrun, declaring_prepared hc hrun⟩

end Checking

end ApiSchema
