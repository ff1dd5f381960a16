import ApiSchema.Proofs.Checking.Resolution

/-!
# The declaration behind a reference

What a reference stands for depends on the symbols that names are bound to and on nothing that is
found out while checking. Here it is a function of the state; resolving a reference comes to the
same answer and adds nothing but reports.
-/

namespace ApiSchema.Checking

open Symbol State

variable {env : Environment} {s s' : State} {tree : Tree} {node : NodeId} {kind : ReferenceKind}
  {answer : Option SymbolId} {depth : Nat}

namespace State

/-- The member of a namespace with a name. -/
def member? (s : State) (base : SymbolId) (member : String) (kind : ReferenceKind) :
    Option SymbolId :=
  if s.bindings.isNamespace base then
    (s.mergedExports? base).bind fun table => table.find? (kind.key member)
  else none

/-- The symbol that a reference of at most `depth` segments stands for. -/
def referentWithin (s : State) (tree : Tree) : Nat → NodeId → ReferenceKind → Option SymbolId
  | 0, _, _ => none
  | depth + 1, node, kind =>
    match tree.kind? node with
    | some (.identifier name) => s.resolve? tree node (kind.key name)
    | some (.memberExpression base member) =>
      (s.referentWithin tree depth base .type).bind fun symbol => s.member? symbol member kind
    | some (.typeReference target _) => s.referentWithin tree depth target kind
    | _ => none

/-- The symbol that a reference to a type stands for. -/
def referent? (s : State) (tree : Tree) (node : NodeId) : Option SymbolId :=
  s.referentWithin tree (tree.size + 1) node .type

/-- The declaration that a reference to a type leads to. -/
def declarationOf? (s : State) (tree : Tree) (node : NodeId) : Option NodeId :=
  (s.referent? tree node).bind fun id => (s.bindings.symbol? id).bind node?

theorem declarationOf?_eq_some_iff {declaration : NodeId} :
    s.declarationOf? tree node = some declaration ↔ ∃ id symbol,
      s.referent? tree node = some id ∧ s.bindings.symbol? id = some symbol ∧
        symbol.node? = some declaration := by
  simp only [declarationOf?, Option.bind_eq_some_iff]
  exact ⟨fun ⟨id, hid, symbol, hsym, hnode⟩ => ⟨id, symbol, hid, hsym, hnode⟩,
    fun ⟨id, symbol, hid, hsym, hnode⟩ => ⟨id, hid, symbol, hsym, hnode⟩⟩

section

variable (hbinds : s'.bindings = s.bindings) (hmerged : s'.mergedSymbols = s.mergedSymbols)

include hbinds hmerged

/-- What references stand for depends on the bindings and on the merged symbols. -/
theorem referentWithin_congr (depth : Nat) (node : NodeId) (kind : ReferenceKind) :
    s'.referentWithin tree depth node kind = s.referentWithin tree depth node kind := by
  obtain ⟨hresolve, hmember⟩ : s'.resolve? = s.resolve? ∧ s'.member? = s.member? := by
    cases s
    cases s'
    simp only at hbinds hmerged
    subst hbinds hmerged
    exact ⟨rfl, rfl⟩
  induction depth generalizing node kind with
  | zero => rfl
  | succ depth ih =>
    simp only [referentWithin, hresolve, hmember, ih]

theorem referent?_congr (node : NodeId) :
    s'.referent? tree node = s.referent? tree node :=
  referentWithin_congr hbinds hmerged _ _ _

theorem declarationOf?_congr (node : NodeId) :
    s'.declarationOf? tree node = s.declarationOf? tree node := by
  rw [declarationOf?, declarationOf?, referent?_congr hbinds hmerged, hbinds]

end

end State

/-- A run finds the member. -/
theorem run_resolveMember {base : SymbolId} {member : String}
    (h : resolveMember base member kind node env s = some (answer, s')) :
    answer = s.member? base member kind ∧ Quiet s s' := by
  refine ⟨?_, (resolveMember_quiet h).1⟩
  simp only [resolveMember, get_bind] at h
  rw [member?, Bindings.isNamespace]
  replace h := run_chosen h
  split at h
  next hnone =>
    obtain ⟨rfl, -⟩ := run_pure.mp h
    simp [hnone]
  next symbol hsym =>
    split at h
    next hdeco =>
      obtain ⟨_, -, rfl⟩ := run_bind_pure.mp h
      have hnot : symbol.isNamespace = false := by
        cases hkind : symbol.kind <;>
          simp_all [isNamespace, isDecorator, decoratorPath?]
      simp [hsym, hnot]
    · split at h
      next hnot =>
        simp only [Chosen, getTree_bind] at h
        obtain ⟨_, -, rfl⟩ := run_bind_pure.mp h
        simp only [Bool.not_eq_eq_eq_not, Bool.not_true] at hnot
        simp [hsym, hnot]
      next hns =>
        obtain ⟨rfl, -⟩ := foundOrReport_quiet h
        simp only [Bool.not_eq_eq_eq_not, Bool.not_true, Bool.not_eq_false] at hns
        simp [hsym, hns]

/-- A run finds the referent. -/
theorem run_resolveWithin (h : resolveWithin depth node kind env s = some (answer, s')) :
    answer = s.referentWithin env.tree depth node kind ∧ Quiet s s' := by
  induction depth generalizing node kind answer s' with
  | zero => exact absurd h run_tooDeep
  | succ depth ih =>
    simp only [resolveWithin, getTree_bind] at h
    replace h := run_chosen h
    split at h
    next name hkind =>
      simp only [Chosen, get_bind, getTree_bind] at h
      simp only [referentWithin, hkind]
      exact foundOrReport_quiet h
    next base member hkind =>
      simp only [referentWithin, hkind]
      obtain ⟨found, s₁, hbase, h⟩ := run_bind.mp h
      obtain ⟨rfl, hquiet⟩ := ih hbase
      replace h := run_chosen h
      split at h
      next hnone =>
        obtain ⟨rfl, rfl⟩ := run_pure.mp h
        rw [hnone]
        exact ⟨rfl, hquiet⟩
      next symbol hsym =>
        obtain ⟨rfl, hquiet'⟩ := run_resolveMember h
        rw [hsym, Option.bind_some, hquiet.eq]
        exact ⟨rfl, hquiet.trans hquiet'⟩
    next target arguments hkind =>
      simp only [referentWithin, hkind]
      exact ih h
    next hother =>
      obtain ⟨rfl, rfl⟩ := run_pure.mp h
      refine ⟨?_, .refl _⟩
      rw [referentWithin]
      split <;> simp_all

/-- Resolving a reference comes to what it stands for, and only reports. -/
theorem run_resolveReference (h : resolveReference node kind env s = some (answer, s')) :
    answer = s.referentWithin env.tree (env.tree.size + 1) node kind ∧ Quiet s s' := by
  simp only [resolveReference, getTree_bind] at h
  exact run_resolveWithin h

/-- The segments of a reference come before it, so that a search that may go down to the first
position is complete. -/
theorem referentWithin_stable (hwf : tree.WellFormed) {depth' : Nat} (kind : ReferenceKind)
    (h : node.index < depth) (h' : node.index < depth') :
    s.referentWithin tree depth node kind = s.referentWithin tree depth' node kind := by
  induction depth generalizing depth' node kind with
  | zero => exact absurd h (Nat.not_lt_zero _)
  | succ depth ih =>
    obtain ⟨deeper, rfl⟩ : ∃ deeper, depth' = deeper + 1 := ⟨depth' - 1, by omega⟩
    have hinner : ∀ {inner : NodeId} (kind : ReferenceKind), inner ∈ tree.children node →
        s.referentWithin tree depth inner kind = s.referentWithin tree deeper inner kind := by
      intro inner kind hmem
      have hlt := hwf.lt_of_parent (hwf.parent_of_mem hmem)
      exact ih kind (by omega) (by omega)
    rw [referentWithin, referentWithin]
    split
    · rfl
    next base member hkind =>
      rw [hinner .type (by simp [Tree.children, hkind])]
    next target arguments hkind =>
      exact hinner kind (by simp [Tree.children, hkind])
    · rfl

/-- A reference stands for what its target stands for. -/
theorem referent?_of_typeReference (hwf : tree.WellFormed) {target : NodeId}
    {arguments : List NodeId} (hkind : tree.kind? node = some (.typeReference target arguments)) :
    s.referent? tree node = s.referent? tree target := by
  have hnode := Tree.index_lt_size_of_kind hkind
  have hmem : target ∈ tree.children node := by simp [Tree.children, hkind]
  have hlt := hwf.lt_of_parent (hwf.parent_of_mem hmem)
  have hopen : s.referent? tree node = s.referentWithin tree tree.size target .type := by
    simp only [referent?, referentWithin, hkind]
  rw [hopen]
  exact referentWithin_stable hwf .type (by omega) (by omega)

/-- A reference that leads to a declaration is resolved, its arguments are checked, and then what it
leads to is. -/
theorem run_checkTypeReference (hwf : env.tree.WellFormed) {check : Check} {t : TypeId}
    {declaration target : NodeId} {arguments : List NodeId}
    (hkind : env.tree.kind? node = some (.typeReference target arguments))
    (hleads : s.declarationOf? env.tree node = some declaration)
    (h : checkTypeReference check node target arguments env s = some (t, s')) :
    ∃ id symbol s₁ given s₂, s.bindings.symbol? id = some symbol ∧
      symbol.node? = some declaration ∧
      resolveReference target .type env s = some (some id, s₁) ∧
      arguments.mapM check env s₁ = some (given, s₂) ∧
      checkDeclaredReference check node id symbol.kind declaration given env s₂ = some (t, s') := by
  obtain ⟨id, symbol, hid, hsym, hnode⟩ := declarationOf?_eq_some_iff.mp hleads
  obtain ⟨found, s₁, hresolve, h⟩ := run_bind.mp h
  obtain ⟨hfound, hquiet⟩ := run_resolveReference hresolve
  rw [referent?_of_typeReference hwf hkind, referent?, ← hfound] at hid
  subst hid
  have hnot : symbol.isDecorator = false := by
    cases hsymbol : symbol.kind <;>
      simp_all [node?, isDecorator, decoratorPath?]
  simp only [get_bind, hquiet.bindings, hsym, hnot, Bool.false_eq_true, if_false, hnode] at h
  obtain ⟨given, s₂, hgiven, h⟩ := run_bind.mp h
  exact ⟨id, symbol, s₁, given, s₂, hsym, hnode, hresolve, hgiven, h⟩

end ApiSchema.Checking
