import ApiSchema.Proofs.Binding.Consistent
import ApiSchema.Proofs.Checking.Run

/-!
# What references resolve to

A resolved reference is visible at the reference: it was found in one of the tables around a node
of the same template, or among the exports of a namespace. Hence a reference that resolves to a
template parameter stands in the template that the parameter belongs to.
-/

namespace ApiSchema

open Option List

/-- The node of a symbol is among its declarations. -/
theorem Symbol.mem_declarations {symbol : Symbol} {n : NodeId} (h : symbol.node? = some n) :
    n ∈ symbol.declarations := by
  rw [Symbol.node?] at h
  split at h
  · simp at h
  · exact mem_of_head? h

namespace Checking

variable {env : Environment} {s s' : State} {tree : Tree} {n node : NodeId} {table : SymbolTable}
  {key : String} {id base : SymbolId} {answer : Option SymbolId} {kind : ReferenceKind}
  {symbol : Symbol}

/-- A symbol can be referred to from a node: by a name that is looked up in the same template, or
as a member of a namespace. -/
def State.Visible (s : State) (tree : Tree) (node : NodeId) (id : SymbolId) : Prop :=
  (∃ place key, tree.templateDeclarationOf? place = tree.templateDeclarationOf? node ∧
    s.resolve? tree place key = some id) ∨
  ∃ base table key, s.mergedExports? base = some table ∧ table.find? key = some id

/-! ### Template parameters are visible only in their template -/

theorem shared_of_exportsOfNode (h : Bindings.Consistent tree s.bindings)
    (htable : table ∈ s.exportsOfNode n) (hid : table.find? key = some id) :
    s.bindings.Shared id := by
  obtain ⟨symbol, -, hexp⟩ := bind_eq_some_iff.mp (mem_toList.mp htable)
  exact h.exports hexp hid

/-- What a name stands for at a node is no template parameter, or one of a declaration around the
node. -/
theorem shared_or_parameter_of_resolve (h : Bindings.Consistent tree s.bindings)
    (hid : s.resolve? tree n key = some id) :
    s.bindings.Shared id ∨
      ∃ m ∈ tree.ancestors n, ∃ p ∈ tree.templateParameters m, s.bindings.symbolOf? p = some id := by
  obtain ⟨table, htable, hfind⟩ := exists_of_findSome?_eq_some hid
  have hlocals : ∀ m ∈ tree.ancestors n, table ∈ s.localsOf m → s.bindings.Shared id ∨
      ∃ m ∈ tree.ancestors n, ∃ p ∈ tree.templateParameters m,
        s.bindings.symbolOf? p = some id := by
    intro m hm htable
    rcases h.locals (mem_toList.mp htable) hfind with hshared | ⟨p, hp, hsym⟩
    · exact .inl hshared
    · exact .inr ⟨m, hm, p, hp, hsym⟩
  simp only [State.visibleTables, mem_append, mem_flatMap, mem_toList] at htable
  rcases htable with ((⟨m, hm, htable⟩ | ⟨f, -, m, -, htable⟩) | htable) | ⟨f, hf, htable⟩
  · have hmem := takeWhile_subset _ hm
    rw [State.tablesOfScope] at htable
    split at htable
    · rcases mem_append.mp htable with htable | htable
      · exact .inl (shared_of_exportsOfNode h htable hfind)
      · exact hlocals m hmem htable
    · split at htable
      · simp at htable
      · exact hlocals m hmem htable
    · simp at htable
  · exact .inl (shared_of_exportsOfNode h htable hfind)
  · exact .inl (h.exports htable hfind)
  · exact hlocals f (mem_of_find?_eq_some hf) htable

theorem profile?_eq_some_iff {b : Bindings} {kind : SymbolKind} {declarations : List NodeId} :
    b.profile? id = some (kind, declarations) ↔
      ∃ symbol, b.symbol? id = some symbol ∧ symbol.kind = kind ∧
        symbol.declarations = declarations := by
  rw [Bindings.profile?, map_eq_some_iff]
  simp only [Prod.mk.injEq]

/-- The declaration of a symbol that is neither a decorator nor a namespace has that symbol. -/
theorem symbolOf_of_node (h : Bindings.Consistent tree s.bindings)
    (hid : s.bindings.symbol? id = some symbol) (hn : symbol.node? = some n)
    (hkind : symbol.kind ≠ .namespaceKind) : s.bindings.symbolOf? n = some id :=
  (h.unique (profile?_eq_some_iff.mpr ⟨symbol, hid, rfl, rfl⟩) hkind
    (Symbol.mem_declarations hn)).2

/-- The declaration of a symbol is of a kind that has such symbols. -/
theorem symbolKind_of_node (h : Bindings.Consistent tree s.bindings)
    (hid : s.bindings.symbol? id = some symbol) (hn : symbol.node? = some n) {kind : NodeKind}
    (hkind : tree.kind? n = some kind) : kind.symbolKind? = some symbol.kind := by
  obtain ⟨kind', hkind', hsymKind⟩ := h.kind (profile?_eq_some_iff.mpr ⟨symbol, hid, rfl, rfl⟩)
    (Symbol.mem_declarations hn)
  rwa [mem_unique hkind hkind']

/-- A visible template parameter belongs to the template around the node. -/
theorem State.Visible.parameter (hwf : tree.WellFormed) (h : Bindings.Consistent tree s.bindings)
    {node p : NodeId} (hvisible : s.Visible tree node id)
    (hid : s.bindings.symbol? id = some symbol) (hkind : symbol.kind = .templateParameter)
    (hp : symbol.node? = some p) :
    ∃ declaration, tree.templateDeclarationOf? node = some declaration ∧
      p ∈ tree.templateParameters declaration := by
  have hprof := profile?_eq_some_iff.mpr ⟨symbol, hid, hkind, rfl⟩
  have hnot : ¬ s.bindings.Shared id := by
    rintro ⟨kind, declarations, hother, hne⟩
    rw [hprof, Option.some.injEq, Prod.mk.injEq] at hother
    exact hne hother.1.symm
  rcases hvisible with ⟨place, key, htempl, hresolve⟩ | ⟨base, table, key, hexp, hfind⟩
  · rcases shared_or_parameter_of_resolve h hresolve with hshared | ⟨m, hm, q, hq, hsym⟩
    · exact absurd hshared hnot
    · obtain ⟨kind, declarations, hother, hmem⟩ := h.declared hsym
      rw [hprof, Option.some.injEq, Prod.mk.injEq] at hother
      obtain ⟨hsingle, -⟩ := h.unique hprof (by simp) (hother.2 ▸ hmem)
      have hpq : p = q := by simpa [Symbol.node?, hkind, hsingle, eq_comm] using hp
      refine ⟨m, ?_, hpq ▸ hq⟩
      rw [← htempl]
      exact hwf.templateDeclarationOf_of_mem_ancestors hm (ne_nil_of_mem hq)
  · exact absurd (h.exports hexp hfind) hnot

/-! ### Resolving is quiet and finds what is visible -/

theorem resolveMember_quiet {member : String}
    (h : resolveMember base member kind node env s = some (answer, s')) :
    Quiet s s' ∧ ∀ id ∈ answer, ∃ base table key, s.mergedExports? base = some table ∧
      table.find? key = some id := by
  simp only [resolveMember, get_bind] at h
  replace h := run_chosen h
  split at h
  · obtain ⟨rfl, rfl⟩ := run_pure.mp h
    exact ⟨.refl _, by simp⟩
  · split at h
    · obtain ⟨rfl, hquiet, -⟩ := run_reported h
      exact ⟨hquiet, by simp⟩
    · split at h
      · simp only [Chosen, getTree_bind] at h
        obtain ⟨rfl, hquiet, -⟩ := run_reported h
        exact ⟨hquiet, by simp⟩
      · obtain ⟨rfl, hquiet⟩ := foundOrReport_quiet h
        refine ⟨hquiet, fun id hid => ?_⟩
        obtain ⟨table, htable, hfind⟩ := bind_eq_some_iff.mp hid
        exact ⟨base, table, _, htable, hfind⟩

/-- Only visible symbols are found. -/
theorem resolveWithin_visible (hwf : env.tree.WellFormed) {depth : Nat}
    (h : resolveWithin depth node kind env s = some (answer, s')) :
    Quiet s s' ∧ ∀ id ∈ answer, s.Visible env.tree node id := by
  induction depth generalizing node kind answer s' with
  | zero => exact absurd h run_tooDeep
  | succ depth ih =>
    simp only [resolveWithin, getTree_bind] at h
    replace h := run_chosen h
    split at h
    · obtain ⟨rfl, hquiet⟩ := foundOrReport_quiet h
      exact ⟨hquiet, fun id hid => .inl ⟨node, _, rfl, hid⟩⟩
    · obtain ⟨found, s₁, hbase, h⟩ := run_bind.mp h
      obtain ⟨hquiet, -⟩ := ih hbase
      split at h
      · obtain ⟨rfl, rfl⟩ := run_pure.mp h
        exact ⟨hquiet, by simp⟩
      · obtain ⟨hquiet', hmember⟩ := resolveMember_quiet h
        refine ⟨hquiet.trans hquiet', fun id hid => .inr ?_⟩
        obtain ⟨base, table, key, htable, hfind⟩ := hmember id hid
        rw [hquiet.eq] at htable
        exact ⟨base, table, key, htable, hfind⟩
    next target arguments hkind =>
      obtain ⟨hquiet, hvisible⟩ := ih h
      refine ⟨hquiet, fun id hid => ?_⟩
      have htarget := hwf.templateDeclarationOf_child hkind rfl
        (show target ∈ (NodeKind.typeReference target arguments).children from
          mem_cons_self)
      exact (hvisible id hid).imp_left fun ⟨place, key, hplace, hfound⟩ =>
        ⟨place, key, hplace.trans htarget, hfound⟩
    · obtain ⟨rfl, rfl⟩ := run_pure.mp h
      exact ⟨.refl _, by simp⟩

theorem resolveReference_visible (hwf : env.tree.WellFormed)
    (h : resolveReference node kind env s = some (answer, s')) :
    Quiet s s' ∧ ∀ id ∈ answer, s.Visible env.tree node id := by
  simp only [resolveReference, getTree_bind] at h
  exact resolveWithin_visible hwf h

end Checking

end ApiSchema
