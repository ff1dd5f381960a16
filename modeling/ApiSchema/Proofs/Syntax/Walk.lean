import ApiSchema.Proofs.Syntax.WellFormed

/-!
# The order of a walk

A walk over a tree meets exactly the nodes inside its root, and every node after its parent. What
stands in an earlier statement of a file is met before every later statement.
-/

namespace ApiSchema

open List

/-- In a list of nodes, every occurrence of the second node has the first one before it. -/
def Precedes (nodes : List NodeId) (m n : NodeId) : Prop :=
  ∀ before after : List NodeId, nodes = before ++ n :: after → m ∈ before

namespace Precedes

variable {nodes more : List NodeId} {m n : NodeId}

theorem of_not_mem (hn : n ∉ nodes) : Precedes nodes m n := by
  rintro before after rfl
  simp at hn

theorem of_mem_append (hm : m ∈ nodes) (hn : n ∉ nodes) : Precedes (nodes ++ more) m n := by
  intro before after heq
  rcases append_eq_append_iff.mp heq with ⟨rest, rfl, -⟩ | ⟨rest, rfl, hrest⟩
  · exact mem_append_left _ hm
  · cases rest with
    | nil => simpa using hm
    | cons first rest =>
      obtain ⟨rfl, -⟩ := List.cons.inj hrest
      simp at hn

theorem append (h : Precedes nodes m n) (h' : Precedes more m n) : Precedes (nodes ++ more) m n := by
  intro before after heq
  rcases append_eq_append_iff.mp heq with ⟨rest, rfl, hmore⟩ | ⟨rest, rfl, hrest⟩
  · exact mem_append_right _ (h' _ _ hmore)
  · cases rest with
    | nil =>
      have hmem := h' [] after hrest.symm
      simp at hmem
    | cons first rest =>
      obtain ⟨rfl, -⟩ := List.cons.inj hrest
      exact h _ _ rfl

theorem flatMap {roots : List NodeId} {f : NodeId → List NodeId}
    (h : ∀ root ∈ roots, Precedes (f root) m n) : Precedes (roots.flatMap f) m n := by
  induction roots with
  | nil => exact of_not_mem (by simp)
  | cons root roots ih =>
    rw [flatMap_cons]
    exact (h root (.head _)).append (ih fun r hr => h r (.tail _ hr))

end Precedes

namespace Tree.WellFormed

variable {tree : Tree} (hwf : tree.WellFormed) {n root : NodeId} {depth : Nat}

include hwf

/-- A walk meets only nodes inside its root. -/
theorem mem_selfAndAncestors_of_mem_walk
    (h : n ∈ tree.walkWithin depth root) : root ∈ tree.selfAndAncestors n := by
  induction depth generalizing root with
  | zero =>
    obtain rfl : n = root := by simpa [walkWithin] using h
    exact .head _
  | succ depth ih =>
    rw [walkWithin, mem_cons, mem_flatMap] at h
    rcases h with rfl | ⟨child, hchild, hn⟩
    · exact .head _
    · exact hwf.selfAndAncestors_trans (ih hn)
        (hwf.parent_mem_selfAndAncestors (hwf.parent_of_mem hchild))

/-- Whatever stands in a node stands in one of its children. -/
theorem exists_child_of_mem_selfAndAncestors
    (h : root ∈ tree.selfAndAncestors n) (hne : n ≠ root) :
    ∃ child ∈ tree.children root, child ∈ tree.selfAndAncestors n := by
  induction n using hwf.upward_induction with
  | step n ih =>
    cases hpar : tree.parent? n with
    | none =>
      rw [selfAndAncestors, ancestors_of_root hpar, mem_singleton] at h
      exact absurd h.symm hne
    | some p =>
      rw [hwf.selfAndAncestors_of_parent hpar, mem_cons] at h
      have hp := h.resolve_left (Ne.symm hne)
      by_cases heq : p = root
      · exact ⟨n, hwf.mem_of_parent (heq ▸ hpar), mem_cons_self⟩
      · obtain ⟨child, hchild, hmem⟩ := ih p hpar hp heq
        rw [hwf.selfAndAncestors_of_parent hpar]
        exact ⟨child, hchild, mem_cons_of_mem _ hmem⟩

/-- A walk that may go deep enough meets all nodes inside its root. -/
theorem mem_walkWithin (h : root ∈ tree.selfAndAncestors n)
    (hdepth : root.index ≤ n.index + depth) : n ∈ tree.walkWithin depth root := by
  induction depth generalizing root with
  | zero =>
    by_cases heq : n = root
    · simp [walkWithin, heq]
    · obtain ⟨child, hchild, hmem⟩ := hwf.exists_child_of_mem_selfAndAncestors h heq
      have hle := hwf.index_le_of_mem_selfAndAncestors hmem
      have hlt := hwf.lt_of_parent (hwf.parent_of_mem hchild)
      omega
  | succ depth ih =>
    rw [walkWithin, mem_cons, mem_flatMap]
    by_cases heq : n = root
    · exact .inl heq
    · obtain ⟨child, hchild, hmem⟩ := hwf.exists_child_of_mem_selfAndAncestors h heq
      have hlt := hwf.lt_of_parent (hwf.parent_of_mem hchild)
      exact .inr ⟨child, hchild, ih hmem (by omega)⟩

/-- A walk meets every node after its parent. -/
theorem parent_precedes {m : NodeId} (hpar : tree.parent? n = some m)
    (hne : n ≠ root) : Precedes (tree.walkWithin depth root) m n := by
  have hroot : n ∉ [root] := by simpa using hne
  induction depth generalizing root with
  | zero => exact .of_not_mem hroot
  | succ depth ih =>
    change Precedes ([root] ++ _) m n
    by_cases heq : m = root
    · exact .of_mem_append (by simp [heq]) hroot
    · refine .append (.of_not_mem hroot) (.flatMap fun child hchild => ?_)
      have hchildNe : n ≠ child := by
        rintro rfl
        exact heq (Option.mem_unique hpar (hwf.parent_of_mem hchild))
      exact ih hchildNe (by simpa using hchildNe)

/-- A walk over a file meets what stands in a statement before all later statements. -/
theorem statement_precedes {file m statement : NodeId} {name : String}
    {before after : List NodeId}
    (hkind : tree.kind? file = some (.sourceFile name (before ++ n :: after)))
    (hstmt : statement ∈ before) (hm : statement ∈ tree.selfAndAncestors m) :
    Precedes (tree.walk file) m n := by
  have hchildren : tree.children file = before ++ n :: after := by
    simp [children, hkind]
  have hpar : ∀ c ∈ before ++ n :: after, tree.parent? c = some file := fun c hc =>
    hwf.parent_of_mem (hchildren ▸ hc)
  have hn := hpar n (by simp)
  obtain ⟨depth, hdepth⟩ : ∃ depth, tree.size = depth + 1 :=
    ⟨tree.size - 1, by have := index_lt_size_of_kind hkind; omega⟩
  have hwalk : tree.walk file = (file :: before.flatMap (tree.walkWithin depth)) ++
      (n :: after).flatMap (tree.walkWithin depth) := by
    rw [walk, hdepth, walkWithin, hchildren, flatMap_append, cons_append]
  rw [hwalk]
  refine .of_mem_append (.tail _ (mem_flatMap.mpr ⟨statement, hstmt,
    hwf.mem_walkWithin hm ?_⟩)) ?_
  · have hlt := hwf.lt_of_parent (hpar statement (mem_append_left _ hstmt))
    have hsize := index_lt_size_of_kind hkind
    omega
  · rw [mem_cons, mem_flatMap, not_or]
    refine ⟨?_, ?_⟩
    · rintro rfl
      exact absurd (hwf.lt_of_parent hn) (Nat.lt_irrefl _)
    · rintro ⟨other, hother, hmem⟩
      -- Statements of a file are not inside each other.
      have hinside := hwf.mem_selfAndAncestors_of_mem_walk hmem
      have hne : n ≠ other := by
        rintro rfl
        have hnodup := hchildren ▸ hwf.nodup file
        exact (nodup_append.mp hnodup).2.2 n hother n (by simp) rfl
      exact hwf.not_mem_selfAndAncestors_of_sibling
        (hn.trans (hpar other (mem_append_left _ hother)).symm) hne (.head _)
        hinside

end Tree.WellFormed

end ApiSchema
