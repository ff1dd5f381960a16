import ApiSchema.Proofs.Syntax.WellFormed
import Mathlib.Logic.Relation

/-!
# Ranges as intervals of nodes

The range of a node ends just after the node itself, and before the node it is covered by the ranges
of its children, one after the other. In a tree of such nodes the range of a node holds exactly the
node and its descendants.
-/

namespace ApiSchema.Tree

variable {tree tree' : Tree} {n : NodeId} {range : TextRange}

/-- The positions that a node covers. -/
def range? (tree : Tree) (id : NodeId) : Option TextRange := (tree.node? id).map Node.range

/-- The ranges of the nodes cover the positions from `start` to `stop`, from left to right without
a gap and without an overlap. -/
def Tiles (tree : Tree) : Nat → List NodeId → Nat → Prop
  | start, [], stop => start = stop
  | start, node :: rest, stop =>
    ∃ middle, tree.range? node = some ⟨start, middle⟩ ∧ start < middle ∧ tree.Tiles middle rest stop

theorem index_lt_size_of_range (h : tree.range? n = some range) : n.index < tree.size := by
  obtain ⟨node, hnode, -⟩ := Option.map_eq_some_iff.mp h
  exact index_lt_size_of_kind (congrArg (Option.map Node.kind) hnode)

namespace Tiles

variable {nodes more : List NodeId} {start middle stop : Nat}

theorem le (h : tree.Tiles start nodes stop) : start ≤ stop := by
  induction nodes generalizing start with
  | nil => exact Nat.le_of_eq h
  | cons node rest ih =>
    obtain ⟨middle, -, hlt, hrest⟩ := h
    have hle := ih hrest
    omega

theorem append (h : tree.Tiles start nodes middle) (h' : tree.Tiles middle more stop) :
    tree.Tiles start (nodes ++ more) stop := by
  induction nodes generalizing start with
  | nil =>
    obtain rfl : start = middle := h
    exact h'
  | cons node rest ih =>
    obtain ⟨first, hrange, hlt, hrest⟩ := h
    exact ⟨first, hrange, hlt, ih hrest⟩

/-- Only the ranges of the nodes matter. -/
theorem imp (h : tree.Tiles start nodes stop)
    (hkept : ∀ n range, tree.range? n = some range → tree'.range? n = some range) :
    tree'.Tiles start nodes stop := by
  induction nodes generalizing start with
  | nil => exact h
  | cons node rest ih =>
    obtain ⟨first, hrange, hlt, hrest⟩ := h
    exact ⟨first, hkept _ _ hrange, hlt, ih hrest⟩

theorem exists_range (h : tree.Tiles start nodes stop) (hn : n ∈ nodes) :
    ∃ range, tree.range? n = some range ∧ range.stop ≤ stop := by
  induction nodes generalizing start with
  | nil => exact absurd hn List.not_mem_nil
  | cons node rest ih =>
    obtain ⟨middle, hrange, -, hrest⟩ := h
    rcases List.mem_cons.mp hn with rfl | hn
    · exact ⟨_, hrange, hrest.le⟩
    · exact ih hrest hn

/-- Each of the positions is in the range of one of the nodes, and there are no others. -/
theorem covers (h : tree.Tiles start nodes stop) (i : Nat) : (start ≤ i ∧ i < stop) ↔
    ∃ n ∈ nodes, ∃ range, tree.range? n = some range ∧ range.start ≤ i ∧ i < range.stop := by
  induction nodes generalizing start with
  | nil =>
    obtain rfl : start = stop := h
    simp only [List.not_mem_nil, false_and, exists_false, iff_false, not_and]
    omega
  | cons node rest ih =>
    obtain ⟨middle, hrange, hlt, hrest⟩ := h
    have hle := hrest.le
    have hsplit : (start ≤ i ∧ i < stop) ↔ (start ≤ i ∧ i < middle) ∨ (middle ≤ i ∧ i < stop) := by
      omega
    rw [hsplit, ih hrest, List.exists_mem_cons_iff]
    simp [hrange]

end Tiles

/-- Every range ends just after its node, and before the node its children cover it. -/
structure Tiled (tree : Tree) : Prop where
  stop {n : NodeId} {range : TextRange} : tree.range? n = some range → range.stop = n.index + 1
  tiles {n : NodeId} {range : TextRange} : tree.range? n = some range →
    tree.Tiles range.start (tree.children n) n.index

/-- The second node is a child of the first. -/
def IsChild (tree : Tree) (n child : NodeId) : Prop := child ∈ tree.children n

/-- The range of a node holds exactly the node and its descendants. -/
theorem Tiled.descendant_iff (h : tree.Tiled) (hrange : tree.range? n = some range) (m : NodeId) :
    Relation.ReflTransGen tree.IsChild n m ↔ range.start ≤ m.index ∧ m.index ≤ n.index := by
  induction hk : n.index using Nat.strongRecOn generalizing n range with
  | ind k ih =>
    subst hk
    have htiles := h.tiles hrange
    have hle := htiles.le
    -- By induction a child and its descendants are the positions of the child's range.
    have hchild : ∀ c ∈ tree.children n, Relation.ReflTransGen tree.IsChild c m ↔
        ∃ inner, tree.range? c = some inner ∧ inner.start ≤ m.index ∧ m.index < inner.stop := by
      intro c hc
      obtain ⟨inner, hinner, hstop⟩ := htiles.exists_range hc
      have hend := h.stop hinner
      rw [ih c.index (by omega) hinner rfl]
      simp only [hinner, Option.some.injEq, exists_eq_left', hend]
      omega
    have hinside : (∃ c, tree.IsChild n c ∧ Relation.ReflTransGen tree.IsChild c m) ↔
        range.start ≤ m.index ∧ m.index < n.index := by
      rw [htiles.covers m.index]
      exact exists_congr fun c => and_congr_right (hchild c)
    rw [Relation.ReflTransGen.cases_head_iff, hinside]
    constructor
    · rintro (rfl | ⟨hstart, hlt⟩)
      · exact ⟨hle, Nat.le_refl _⟩
      · exact ⟨hstart, Nat.le_of_lt hlt⟩
    · rintro ⟨hstart, hlast⟩
      rcases Nat.lt_or_eq_of_le hlast with hlt | heq
      · exact .inr ⟨hstart, hlt⟩
      · exact .inl (congrArg NodeId.mk heq.symm)

end ApiSchema.Tree
