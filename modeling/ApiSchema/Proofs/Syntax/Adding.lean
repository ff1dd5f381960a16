import ApiSchema.Proofs.Syntax.Tiling
import ApiSchema.Syntax.Lowering

/-!
# Adding nodes

Every description adds its nodes at the end of the tree. It leaves the nodes before it alone, and of
its own nodes exactly one, the last, has no parent yet. Adding a node above such roots keeps the
tree well formed if the roots may stand there. The ranges of the roots cover the added positions, so
that a node above them that begins where they begin covers them too.
-/

namespace ApiSchema.Tree

open Table List

variable {tree tree' tree₁ tree₂ : Tree} {kind : NodeKind} {n : NodeId} {role : NodeRole}
  {roots more : List (NodeId × NodeRole)}

/-! ### Adding one node -/

/-- The children get their new parent, and all else stays. -/
theorem get?_foldl_adopt (parent : NodeId) (children : List NodeId) (nodes : Table NodeId Node)
    (n : NodeId) :
    (children.foldl (adopt parent) nodes).get? n =
      if n ∈ children then (nodes.get? n).map fun node => { node with parent := some parent }
      else nodes.get? n := by
  induction children generalizing nodes with
  | nil => simp
  | cons c rest ih =>
    rw [foldl_cons, ih, adopt, get?_modify]
    by_cases hrest : n ∈ rest <;> by_cases hc : n = c <;> simp [hrest, hc, Function.comp_def]

/-- Adoption adds no nodes. -/
theorem size_foldl_adopt (parent : NodeId) (children : List NodeId) (nodes : Table NodeId Node) :
    (children.foldl (adopt parent) nodes).size = nodes.size := by
  induction children generalizing nodes with
  | nil => rfl
  | cons c rest ih => rw [foldl_cons, ih, adopt, size_modify]

/-- The new node comes last, and its children get it as their parent. -/
theorem node?_addNode (start : Nat) (kind : NodeKind) (n : NodeId) :
    (addNode start kind tree).2.node? n =
      if n.index = tree.size then some ⟨kind, ⟨start, tree.size + 1⟩, none⟩
      else if n ∈ kind.children then
        (tree.node? n).map fun node => { node with parent := some ⟨tree.size⟩ }
      else tree.node? n := by
  change (push _ _).get? n = _
  rw [get?_push, get?_foldl_adopt, size_foldl_adopt]
  rfl

/-- There is one more node. -/
theorem size_addNode (start : Nat) (kind : NodeKind) :
    (addNode start kind tree).2.size = tree.size + 1 := by
  change (push _ _).size = _
  rw [size_push, size_foldl_adopt]
  rfl

/-- The new node has the given kind, and all others keep theirs. -/
theorem kind?_addNode (start : Nat) (kind : NodeKind) (n : NodeId) :
    (addNode start kind tree).2.kind? n =
      if n.index = tree.size then some kind else tree.kind? n := by
  rw [kind?, node?_addNode]
  split
  · rfl
  · split
    · simp [kind?, Function.comp_def]
    · rfl

/-- The new node ends where the tree ends. -/
theorem range?_addNode (start : Nat) (kind : NodeKind) (n : NodeId) :
    (addNode start kind tree).2.range? n =
      if n.index = tree.size then some ⟨start, tree.size + 1⟩ else tree.range? n := by
  rw [range?, node?_addNode]
  split
  · rfl
  · split
    · simp [range?, Function.comp_def]
    · rfl

/-- Old nodes keep their ranges. -/
theorem range?_addNode_of_range (start : Nat) (kind : NodeKind) (n : NodeId) (range : TextRange)
    (h : tree.range? n = some range) : (addNode start kind tree).2.range? n = some range := by
  rw [range?_addNode, if_neg (Nat.ne_of_lt (index_lt_size_of_range h)), h]

/-- The new node has the children of its kind. -/
theorem children_addNode (start : Nat) (kind : NodeKind) (n : NodeId) :
    (addNode start kind tree).2.children n =
      if n.index = tree.size then kind.children else tree.children n := by
  rw [children, kind?_addNode]
  split <;> rfl

section

variable (hadded : ∀ n ∈ kind.children, ∃ node, tree.node? n = some node ∧ node.parent = none)

include hadded

/-- The children of the new node get it as their parent. -/
theorem parent?_addNode (start : Nat) :
    (addNode start kind tree).2.parent? n =
      if n ∈ kind.children then some ⟨tree.size⟩ else tree.parent? n := by
  rw [parent?, node?_addNode]
  by_cases hn : n.index = tree.size
  · have hnone : tree.node? n = none := get?_eq_none_iff.mpr (Nat.le_of_eq hn.symm)
    have hnot : n ∉ kind.children := fun hmem => by
      obtain ⟨node, hnode, -⟩ := hadded n hmem
      simp [hnone] at hnode
    simp [hn, hnot, parent?, hnone]
  · by_cases hmem : n ∈ kind.children
    · obtain ⟨node, hnode, -⟩ := hadded n hmem
      simp [hn, hmem, hnode]
    · simp [hn, hmem, parent?]

/-- The children of the new node were there before. -/
theorem index_lt_size_of_added (hn : n ∈ kind.children) : n.index < tree.size := by
  obtain ⟨node, hnode, -⟩ := hadded n hn
  have hkind : tree.kind? n = some node.kind := by simp [kind?, hnode]
  exact index_lt_size_of_kind hkind

/-- A node stands below the new one or where it stood. In any case it is an old node. -/
theorem parent?_addNode_cases {start : Nat} {m : NodeId} (hwf : tree.WellFormed)
    (h : (addNode start kind tree).2.parent? n = some m) : n.index < tree.size ∧
      ((n ∈ kind.children ∧ m.index = tree.size) ∨
        (tree.parent? n = some m ∧ m.index < tree.size)) := by
  rw [parent?_addNode hadded] at h
  split at h
  next hmem =>
    cases h
    exact ⟨index_lt_size_of_added hadded hmem, .inl ⟨hmem, rfl⟩⟩
  · have hm := hwf.parent_lt_size h
    have hlt := hwf.lt_of_parent h
    exact ⟨by omega, .inr ⟨h, hm⟩⟩

end

/-- An old node keeps its kind. -/
theorem kind?_addNode_of_lt (start : Nat) (kind : NodeKind) (h : n.index < tree.size) :
    (addNode start kind tree).2.kind? n = tree.kind? n := by
  rw [kind?_addNode, if_neg (Nat.ne_of_lt h)]

/-- A node in a role may stand below a node of the kind. -/
structure Admits (kind : NodeKind) (n : NodeId) (role : NodeRole) : Prop where
  file : role ≠ .file
  statement : role = .statement → kind.isScope = true
  parameter : role = .parameter ↔ n ∈ kind.templateParameters
  decorator : n ∈ kind.decorators → role = .part

/-- A node added above nodes without parents, which may stand there, keeps a tree well formed. -/
theorem WellFormed.addNode (start : Nat) (hwf : tree.WellFormed)
    (hadded : ∀ n ∈ kind.children, ∃ node, tree.node? n = some node ∧ node.parent = none)
    (hnodup : kind.children.Nodup)
    (hadmits : ∀ n ∈ kind.children, ∀ inner, tree.kind? n = some inner → Admits kind n inner.role)
    (hop : ∀ parts, kind = .operationStatement parts →
      ∃ members, tree.kind? parts.parameters = some (.modelExpression members)) :
    (Tree.addNode start kind tree).2.WellFormed := by
  constructor
  case parent_of_mem =>
    intro n m hmem
    rw [children_addNode] at hmem
    rw [parent?_addNode hadded]
    split at hmem
    next hm => rw [if_pos hmem, ← hm]
    · have hp := hwf.parent_of_mem hmem
      rw [if_neg, hp]
      intro hn
      obtain ⟨node, hnode, hpar⟩ := hadded n hn
      simp [parent?, hnode, hpar] at hp
  case mem_of_parent =>
    intro n m hp
    obtain ⟨-, ⟨hmem, hm⟩ | ⟨hp, hm⟩⟩ := parent?_addNode_cases hadded hwf hp
    · rwa [children_addNode, if_pos hm]
    · rw [children_addNode, if_neg (Nat.ne_of_lt hm)]
      exact hwf.mem_of_parent hp
  case lt_of_parent =>
    intro n m hp
    obtain ⟨hn, ⟨-, hm⟩ | ⟨hp, -⟩⟩ := parent?_addNode_cases hadded hwf hp
    · exact hm ▸ hn
    · exact hwf.lt_of_parent hp
  case nodup =>
    intro m
    rw [children_addNode]
    split
    · exact hnodup
    · exact hwf.nodup m
  case parent_of_file =>
    intro n inner hinner hrole
    refine Option.eq_none_iff_forall_ne_some.mpr fun m hp => ?_
    obtain ⟨hn, hcases⟩ := parent?_addNode_cases hadded hwf hp
    rw [kind?_addNode_of_lt _ _ hn] at hinner
    rcases hcases with ⟨hmem, -⟩ | ⟨hp, -⟩
    · exact (hadmits n hmem inner hinner).file hrole
    · simp [hwf.parent_of_file hinner hrole] at hp
  case scope_of_statement =>
    intro n m inner outer hp hinner hrole houter
    obtain ⟨hn, hcases⟩ := parent?_addNode_cases hadded hwf hp
    rw [kind?_addNode_of_lt _ _ hn] at hinner
    rcases hcases with ⟨hmem, hm⟩ | ⟨hp, hm⟩
    · rw [kind?_addNode, if_pos hm] at houter
      exact Option.some.inj houter ▸ (hadmits n hmem inner hinner).statement hrole
    · rw [kind?_addNode_of_lt _ _ hm] at houter
      exact hwf.scope_of_statement hp hinner hrole houter
  case parameter_iff =>
    intro n m inner hp hinner
    obtain ⟨hn, hcases⟩ := parent?_addNode_cases hadded hwf hp
    rw [kind?_addNode_of_lt _ _ hn] at hinner
    rw [templateParameters]
    rcases hcases with ⟨hmem, hm⟩ | ⟨hp, hm⟩
    · rw [kind?_addNode, if_pos hm]
      exact (hadmits n hmem inner hinner).parameter
    · rw [kind?_addNode_of_lt _ _ hm]
      exact hwf.parameter_iff hp hinner
  case operation_parameters =>
    intro n parts hn
    have hold : ∃ members, tree.kind? parts.parameters = some (.modelExpression members) := by
      rw [kind?_addNode] at hn
      split at hn
      · exact hop parts (Option.some.inj hn)
      · exact hwf.operation_parameters hn
    obtain ⟨members, hmems⟩ := hold
    exact ⟨members, by rw [kind?_addNode_of_lt _ _ (index_lt_size_of_kind hmems), hmems]⟩
  case role_of_decorator =>
    intro n d inner hd hinner
    rw [decorators, kind?_addNode] at hd
    split at hd
    · have hchild := kind.decorators_subset hd
      rw [kind?_addNode_of_lt _ _ (index_lt_size_of_added hadded hchild)] at hinner
      exact (hadmits d hchild inner hinner).decorator hd
    · have hp := hwf.parent_of_mem (mem_children_of_decorator hd)
      have hlt := Nat.lt_trans (hwf.lt_of_parent hp) (hwf.parent_lt_size hp)
      rw [kind?_addNode_of_lt _ _ hlt] at hinner
      exact hwf.role_of_decorator hd hinner

/-! ### What descriptions add -/

/-- Nodes that all have one place. -/
def rootsAt (role : NodeRole) (roots : List NodeId) : List (NodeId × NodeRole) :=
  roots.map fun root => (root, role)

/-- These are the nodes. -/
@[simp] theorem map_fst_rootsAt (role : NodeRole) (roots : List NodeId) :
    (rootsAt role roots).map Prod.fst = roots := by
  simp [rootsAt, Function.comp_def]

/-- They all have the place. -/
@[simp] theorem mem_rootsAt {roots : List NodeId} {r : NodeId × NodeRole} :
    r ∈ rootsAt role roots ↔ r.1 ∈ roots ∧ r.2 = role := by
  obtain ⟨root, role'⟩ := r
  simp [rootsAt, eq_comm]

/-- The second tree is the first one with more nodes, of which exactly the listed ones have no
parent; they come with the place where they can stand, and their ranges cover the new positions. -/
structure Adds (tree tree' : Tree) (roots : List (NodeId × NodeRole)) : Prop where
  wellFormed : tree'.WellFormed
  size_le : tree.size ≤ tree'.size
  old : ∀ n : NodeId, n.index < tree.size → tree'.node? n = tree.node? n
  files : tree'.files = tree.files
  sorted : (roots.map Prod.fst).Pairwise fun a b => a.index < b.index
  root : ∀ r ∈ roots, tree.size ≤ r.1.index ∧
    ∃ node, tree'.node? r.1 = some node ∧ node.parent = none ∧ node.kind.role = r.2
  adopted : ∀ n : NodeId, tree.size ≤ n.index → n.index < tree'.size → n ∉ roots.map Prod.fst →
    ∃ m, tree'.parent? n = some m
  tiles : tree'.Tiles tree.size (roots.map Prod.fst) tree'.size
  tiled : ∀ {n : NodeId} {range : TextRange}, tree.size ≤ n.index → tree'.range? n = some range →
    range.stop = n.index + 1 ∧ tree'.Tiles range.start (tree'.children n) n.index

namespace Adds

/-- Nothing has to be added. -/
theorem refl (h : tree.WellFormed) : Adds tree tree [] where
  wellFormed := h
  size_le := Nat.le_refl _
  old _ _ := rfl
  files := rfl
  sorted := List.Pairwise.nil
  root _ h := absurd h not_mem_nil
  adopted n hge hlt _ := absurd hlt (by omega)
  tiles := rfl
  tiled hge hrange := absurd (index_lt_size_of_range hrange) (by omega)

/-- Old nodes keep their ranges. -/
theorem range_kept (h : Adds tree tree' roots) (n : NodeId)
    (range : TextRange) (hrange : tree.range? n = some range) : tree'.range? n = some range := by
  rw [range?, h.old n (index_lt_size_of_range hrange)]
  exact hrange

/-- Roots are in the tree. -/
theorem root_lt (h : Adds tree tree' roots)
    (hn : n ∈ roots.map Prod.fst) : n.index < tree'.size := by
  obtain ⟨r, hr, rfl⟩ := mem_map.mp hn
  obtain ⟨-, node, hnode, -⟩ := h.root r hr
  have hkind : tree'.kind? r.1 = some node.kind := by simp [kind?, hnode]
  exact index_lt_size_of_kind hkind

/-- One addition after the other. -/
theorem append (h : Adds tree tree₁ roots) (h' : Adds tree₁ tree₂ more) :
    Adds tree tree₂ (roots ++ more) where
  wellFormed := h'.wellFormed
  size_le := Nat.le_trans h.size_le h'.size_le
  old n hn := by rw [h'.old n (by have := h.size_le; omega), h.old n hn]
  files := by rw [h'.files, h.files]
  sorted := by
    rw [map_append, pairwise_append]
    refine ⟨h.sorted, h'.sorted, fun a ha b hb => ?_⟩
    have halt := h.root_lt ha
    obtain ⟨r, hr, rfl⟩ := mem_map.mp hb
    have hble := (h'.root r hr).1
    omega
  root r hr := by
    rcases mem_append.mp hr with hr | hr
    · have hlt := h.root_lt (mem_map_of_mem hr)
      obtain ⟨hle, node, hnode, hrest⟩ := h.root r hr
      exact ⟨hle, node, by rw [h'.old _ hlt, hnode], hrest⟩
    · have hsize := h.size_le
      obtain ⟨hle, hrest⟩ := h'.root r hr
      exact ⟨by omega, hrest⟩
  adopted n hge hlt hn := by
    rw [map_append, mem_append, not_or] at hn
    by_cases hmid : n.index < tree₁.size
    · obtain ⟨m, hm⟩ := h.adopted n hge hmid hn.1
      exact ⟨m, by rw [parent?, h'.old n hmid]; exact hm⟩
    · exact h'.adopted n (by omega) hlt hn.2
  tiles := by
    rw [map_append]
    exact (h.tiles.imp h'.range_kept).append h'.tiles
  tiled {n range} hge hrange := by
    by_cases hmid : n.index < tree₁.size
    · rw [range?, h'.old n hmid] at hrange
      obtain ⟨hstop, htiles⟩ := h.tiled hge hrange
      rw [children, kind?, h'.old n hmid]
      exact ⟨hstop, htiles.imp h'.range_kept⟩
    · exact h'.tiled (Nat.le_of_not_lt hmid) hrange

/-- A node above all roots, which may stand there, is the new root. -/
theorem addNode (h : Adds tree tree₁ roots)
    (hchildren : kind.children = roots.map Prod.fst) (hadmits : ∀ r ∈ roots, Admits kind r.1 r.2)
    (hop : ∀ parts, kind = .operationStatement parts →
      ∃ members, tree₁.kind? parts.parameters = some (.modelExpression members)) :
    Adds tree (Tree.addNode tree.size kind tree₁).2
      (rootsAt kind.role [(Tree.addNode tree.size kind tree₁).1]) := by
  have hroot : ∀ n ∈ kind.children, ∃ r ∈ roots, r.1 = n := by
    intro n hn
    rw [hchildren] at hn
    simpa using mem_map.mp hn
  have hsize := h.size_le
  have hadded : ∀ n ∈ kind.children, ∃ node, tree₁.node? n = some node ∧ node.parent = none := by
    intro n hn
    obtain ⟨r, hr, rfl⟩ := hroot n hn
    obtain ⟨-, node, hnode, hpar, -⟩ := h.root r hr
    exact ⟨node, hnode, hpar⟩
  refine ⟨h.wellFormed.addNode tree.size hadded ?_ ?_ hop, ?_, ?_, h.files,
    pairwise_singleton _ _, ?_, ?_, ?_, ?_⟩
  · rw [hchildren]
    exact h.sorted.imp fun hlt heq => by simp [heq] at hlt
  · intro n hn inner hinner
    obtain ⟨r, hr, rfl⟩ := hroot n hn
    obtain ⟨-, node, hnode, -, hrole⟩ := h.root r hr
    rw [kind?, hnode, Option.map_some, Option.some.injEq] at hinner
    rw [← hinner, hrole]
    exact hadmits r hr
  · rw [size_addNode]
    omega
  · intro n hn
    have hnot : n ∉ kind.children := by
      intro hmem
      obtain ⟨r, hr, rfl⟩ := hroot n hmem
      have hle := (h.root r hr).1
      omega
    rw [node?_addNode, if_neg (by omega), if_neg hnot, h.old n hn]
  · intro r hr
    obtain rfl := mem_singleton.mp hr
    have hnew : (Tree.addNode tree.size kind tree₁).2.node? ⟨tree₁.size⟩ =
        some ⟨kind, ⟨tree.size, tree₁.size + 1⟩, none⟩ := by rw [node?_addNode, if_pos rfl]
    exact ⟨hsize, _, hnew, rfl, rfl⟩
  · intro n hge hlt hn
    rw [size_addNode] at hlt
    have hne : n.index ≠ tree₁.size := fun heq => hn (by
      rw [map_fst_rootsAt, mem_singleton]
      exact congrArg NodeId.mk heq)
    rw [parent?_addNode hadded]
    by_cases hmem : n ∈ kind.children
    · exact ⟨_, if_pos hmem⟩
    · rw [if_neg hmem]
      exact h.adopted n hge (by omega) (hchildren ▸ hmem)
  · rw [map_fst_rootsAt, size_addNode]
    exact ⟨tree₁.size + 1, (range?_addNode _ _ _).trans (if_pos rfl), by omega, rfl⟩
  · intro n range hge hrange
    have hkept : ∀ n range, tree₁.range? n = some range → _ := range?_addNode_of_range tree.size kind
    rw [range?_addNode] at hrange
    rw [children_addNode]
    by_cases hnew : n.index = tree₁.size
    · rw [if_pos hnew] at hrange ⊢
      cases hrange
      rw [hnew, hchildren]
      exact ⟨rfl, h.tiles.imp hkept⟩
    · rw [if_neg hnew] at hrange ⊢
      obtain ⟨hstop, htiles⟩ := h.tiled hge hrange
      exact ⟨hstop, htiles.imp hkept⟩

/-- A node above parts that declares no template parameters. -/
theorem addPart (h : Adds tree tree₁ (rootsAt .part kind.children))
    (hnone : kind.templateParameters = []) (hop : ∀ parts, kind = .operationStatement parts →
      ∃ members, tree₁.kind? parts.parameters = some (.modelExpression members)) :
    Adds tree (Tree.addNode tree.size kind tree₁).2
      (rootsAt kind.role [(Tree.addNode tree.size kind tree₁).1]) := by
  refine h.addNode (map_fst_rootsAt _ _).symm (fun r hr => ?_) hop
  rw [(mem_rootsAt.mp hr).2]
  exact ⟨nofun, nofun, by simp [hnone], fun _ => rfl⟩

end Adds

/-- Roots that may stand in a file or in a namespace. -/
def Placeable (roots : List (NodeId × NodeRole)) : Prop :=
  ∀ r ∈ roots, r.2 ≠ .file ∧ r.2 ≠ .parameter

/-- A scope above what may stand in it. -/
theorem Adds.addScope (h : Adds tree tree₁ roots)
    (hchildren : kind.children = roots.map Prod.fst) (hplace : Placeable roots)
    (hscope : kind.isScope = true)
    (hdeco : ∀ r ∈ roots, r.1 ∈ kind.decorators → r.2 = .part) :
    Adds tree (Tree.addNode tree.size kind tree₁).2
      (rootsAt kind.role [(Tree.addNode tree.size kind tree₁).1]) := by
  refine h.addNode hchildren (fun r hr => ⟨(hplace r hr).1, fun _ => hscope, ?_, hdeco r hr⟩)
    fun parts hkind => ?_
  · simp [(hplace r hr).2, NodeKind.templateParameters_of_isScope hscope]
  · simp [hkind] at hscope

/-- A declaration above its decorators, its template parameters and other parts. -/
theorem Adds.addDeclaration {others : List NodeId}
    (h : Adds tree tree₁ (rootsAt .part kind.decorators ++
      rootsAt .parameter kind.templateParameters ++ rootsAt .part others))
    (hchildren : kind.children = kind.decorators ++ kind.templateParameters ++ others)
    (hop : ∀ parts, kind ≠ .operationStatement parts) :
    Adds tree (Tree.addNode tree.size kind tree₁).2
      (rootsAt kind.role [(Tree.addNode tree.size kind tree₁).1]) := by
  have hnodup : kind.children.Nodup := by
    have hsorted := h.sorted
    simp only [map_append, map_fst_rootsAt, ← hchildren] at hsorted
    exact hsorted.imp fun hlt heq => by simp [heq] at hlt
  rw [hchildren, nodup_append, nodup_append] at hnodup
  obtain ⟨⟨-, -, hbefore⟩, -, hafter⟩ := hnodup
  refine h.addNode (by simp [hchildren]) (fun r hr => ?_)
    fun parts hkind => absurd hkind (hop parts)
  simp only [mem_append, mem_rootsAt] at hr
  rcases hr with (⟨hmem, hr⟩ | ⟨hmem, hr⟩) | ⟨hmem, hr⟩
  · have hnot : r.1 ∉ kind.templateParameters := fun hp => hbefore r.1 hmem r.1 hp rfl
    exact hr ▸ ⟨nofun, nofun, by simp [hnot], fun _ => rfl⟩
  · exact hr ▸ ⟨nofun, nofun, by simp [hmem], fun hd => absurd rfl (hbefore r.1 hd r.1 hmem)⟩
  · have hnot : r.1 ∉ kind.templateParameters := fun hp =>
      hafter r.1 (mem_append_right _ hp) r.1 hmem rfl
    exact hr ▸ ⟨nofun, nofun, by simp [hnot], fun _ => rfl⟩

end ApiSchema.Tree
