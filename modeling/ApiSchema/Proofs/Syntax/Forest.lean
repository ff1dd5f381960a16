import ApiSchema.Proofs.Syntax.Lowering

/-!
# The nodes of files form a forest of intervals

The tree of a list of files has the global namespace and the files as its roots. Each node and its
descendants are consecutive: they are the positions of the node's range.
-/

namespace ApiSchema.Tree

variable {tree tree' : Tree}

theorem empty_tiled : (⟨Table.empty, []⟩ : Tree).Tiled where
  stop hrange := by simp [range?, node?_empty] at hrange
  tiles hrange := by simp [range?, node?_empty] at hrange

/-- Nodes that are added after tiled ones are tiled. -/
theorem Tiled.adds {roots : List (NodeId × NodeRole)} (h : tree.Tiled)
    (hadds : Adds tree tree' roots) : tree'.Tiled := by
  have hall : ∀ {n : NodeId} {range : TextRange}, tree'.range? n = some range →
      range.stop = n.index + 1 ∧ tree'.Tiles range.start (tree'.children n) n.index := by
    intro n range hrange
    by_cases hold : n.index < tree.size
    · rw [range?, hadds.old n hold] at hrange
      rw [children, kind?, hadds.old n hold]
      exact ⟨h.stop hrange, (h.tiles hrange).imp hadds.range_kept⟩
    · exact hadds.tiled (Nat.le_of_not_lt hold) hrange
  exact ⟨fun hrange => (hall hrange).1, fun hrange => (hall hrange).2⟩

theorem Tiled.addFile (h : tree.Tiled) (hwf : tree.WellFormed) (file : SourceFile) :
    ((Tree.addFile file).run tree).2.Tiled := by
  have htiled := h.adds ((addFileNode_reads file).run hwf).1
  -- Listing the file changes no node.
  exact ⟨htiled.stop, fun hrange => (htiled.tiles hrange).imp fun _ _ h => h⟩

theorem addFiles_tiled (files : List SourceFile) (h : tree.Tiled) (hcomp : tree.Complete) :
    ((files.mapM Tree.addFile).run tree).2.Tiled := by
  induction files generalizing tree with
  | nil => exact h
  | cons file rest ih =>
    rw [List.mapM_cons]
    exact ih (h.addFile hcomp.toWellFormed file) (hcomp.addFile file)

theorem ofFiles_tiled (files : List SourceFile) : (ofFiles files).Tiled :=
  addFiles_tiled files (empty_tiled.adds (addIntrinsics_reads intrinsicNames).1) initial_complete

/-- The listed files are the nodes of that kind. -/
theorem Complete.mem_files_iff (h : tree.Complete) {n : NodeId} :
    n ∈ tree.files ↔ tree.isSourceFile n = true := by
  constructor
  · intro hn
    obtain ⟨-, fileName, statements, hkind⟩ := h.file_root hn
    simp [isSourceFile, hkind]
  · intro hn
    obtain ⟨kind, hkind, hfile⟩ := (Option.any_eq_true _ _).mp hn
    have hrole : kind.role = .file := by
      cases kind <;> simp_all [NodeKind.role]
    rcases h.root hkind (h.parent_of_file hkind hrole) with rfl | hmem
    · obtain ⟨-, parts, hglobal⟩ := h.global_root
      obtain rfl := Option.mem_unique hglobal hkind
      simp at hfile
    · exact hmem

/-- The nodes of a tree form a forest, whose roots are the global namespace and the files, and the
range of a node is the interval of the node and its descendants. -/
structure IntervalForest (tree : Tree) : Prop where
  /-- A node and its descendants are the positions from the start of its range to the node. -/
  descendant_iff {n : NodeId} {node : Node} : tree.node? n = some node → ∀ m,
    Relation.ReflTransGen tree.IsChild n m ↔ node.range.start ≤ m.index ∧ m.index ≤ n.index
  stop {n : NodeId} {node : Node} : tree.node? n = some node → node.range.stop = n.index + 1
  /-- The children cover the positions before the node, in their order. -/
  tiles {n : NodeId} {node : Node} : tree.node? n = some node →
    tree.Tiles node.range.start node.kind.children n.index
  parent_iff {c n : NodeId} : tree.parent? c = some n ↔ c ∈ tree.children n
  nodup (n : NodeId) : (tree.children n).Nodup
  root_iff {n : NodeId} {node : Node} : tree.node? n = some node →
    (node.parent = none ↔ n = globalNamespace ∨ tree.isSourceFile n = true)
  mem_files_iff {n : NodeId} : n ∈ tree.files ↔ tree.isSourceFile n = true

/-- However many files with whatever statements are added, the nodes form a forest of intervals. -/
theorem ofFiles_intervalForest (files : List SourceFile) : (ofFiles files).IntervalForest := by
  have hcomplete := ofFiles_complete files
  have htiled := ofFiles_tiled files
  have hrange : ∀ {n : NodeId} {node : Node}, (ofFiles files).node? n = some node →
      (ofFiles files).range? n = some node.range := fun hnode => by simp [range?, hnode]
  constructor
  · exact fun hnode m => htiled.descendant_iff (hrange hnode) m
  · exact fun hnode => htiled.stop (hrange hnode)
  · intro n node hnode
    simpa [children, kind?, hnode] using htiled.tiles (hrange hnode)
  · exact ⟨hcomplete.mem_of_parent, hcomplete.parent_of_mem⟩
  · exact hcomplete.nodup
  · intro n node hnode
    have hparent : (ofFiles files).parent? n = node.parent := by simp [parent?, hnode]
    rw [← hcomplete.mem_files_iff, ← hparent]
    constructor
    · exact fun hnone => hcomplete.root (congrArg (Option.map Node.kind) hnode) hnone
    · rintro (rfl | hfile)
      · exact hcomplete.global_root.1
      · exact (hcomplete.file_root hfile).1
  · exact hcomplete.mem_files_iff

end ApiSchema.Tree
