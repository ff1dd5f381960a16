import ApiSchema.Proofs.Syntax.Reading

/-!
# The trees of lists of files

The tree of a list of files is well formed, its roots are the files and the global namespace, and
its nodes are grammatical. The node of each of the files is read as the file.
-/

namespace ApiSchema.Tree

open Table List

variable {tree tree' : Tree} {kind : NodeKind} {n : NodeId} {roots : List (NodeId × NodeRole)}

/-- A node is one that a statement was lowered to. -/
def IsStatement (tree : Tree) (n : NodeId) : Prop :=
  ∃ kind, tree.kind? n = some kind ∧ kind.isStatement = true

/-! ### Complete trees -/

/-- A well-formed tree in which only files and the global namespace have no parent, the global
namespace holds intrinsic types alone, and files hold statements. -/
structure Complete (tree : Tree) : Prop extends WellFormed tree where
  root {n : NodeId} {kind : NodeKind} : tree.kind? n = some kind → tree.parent? n = none →
    n = globalNamespace ∨ n ∈ tree.files
  files_nodup : tree.files.Nodup
  file_root {f : NodeId} : f ∈ tree.files → tree.parent? f = none ∧
    ∃ fileName statements, tree.kind? f = some (.sourceFile fileName statements)
  global_root : tree.parent? globalNamespace = none ∧
    ∃ parts, tree.kind? globalNamespace = some (.namespaceStatement parts)
  intrinsics {n : NodeId} : n ∈ tree.children globalNamespace →
    ∃ name, tree.kind? n = some (.intrinsicStatement name)
  statements {f n : NodeId} : f ∈ tree.files → n ∈ tree.children f → tree.IsStatement n

theorem Complete.isScope_of_root (h : tree.Complete) (hkind : tree.kind? n = some kind)
    (hpar : tree.parent? n = none) :
    kind.isScope = true := by
  rcases h.root hkind hpar with rfl | hfile
  · obtain ⟨-, parts, hglobal⟩ := h.global_root
    obtain rfl := Option.mem_unique hglobal hkind
    rfl
  · obtain ⟨-, fileName, statements, hsource⟩ := h.file_root hfile
    obtain rfl := Option.mem_unique hsource hkind
    rfl

/-- What stands in another node is not the global namespace. -/
theorem Complete.ne_global (h : tree.Complete) {outer m : NodeId} (hpar : tree.parent? m = some outer)
    (haround : m ∈ tree.selfAndAncestors n) : n ≠ globalNamespace := by
  rintro rfl
  rw [selfAndAncestors, WellFormed.ancestors_of_root h.global_root.1, mem_singleton] at haround
  simp [haround, h.global_root.1] at hpar

/-- A template parameter is one of a declaration. -/
theorem Complete.exists_declaration (h : tree.Complete) {p : NodeId} {name : String}
    (hp : tree.kind? p = some (.templateParameterDeclaration name)) :
    ∃ n, p ∈ tree.templateParameters n := by
  cases hpar : tree.parent? p with
  | none => exact absurd (h.isScope_of_root hp hpar) (by simp)
  | some n => exact ⟨n, (h.parameter_iff hpar hp).mp rfl⟩

/-- A root after an addition is one from before or a listed one. -/
theorem Adds.root_cases (h : Adds tree tree' roots)
    (hkind : tree'.kind? n = some kind) (hpar : tree'.parent? n = none) :
    (tree.kind? n = some kind ∧ tree.parent? n = none) ∨ n ∈ roots.map Prod.fst := by
  by_cases hold : n.index < tree.size
  · rw [kind?, h.old n hold] at hkind
    rw [parent?, h.old n hold] at hpar
    exact .inl ⟨hkind, hpar⟩
  · by_contra hnot
    obtain ⟨m, hm⟩ := h.adopted n (by omega) (index_lt_size_of_kind hkind)
      fun hmem => hnot (.inr hmem)
    simp [hm] at hpar

theorem node?_empty (n : NodeId) : (⟨empty, []⟩ : Tree).node? n = none := by
  simp [node?, get?, empty]

/-- The global namespace stands above the intrinsic types. -/
theorem addIntrinsics_reads (names : List String) :
    Adds ⟨empty, []⟩ ((addIntrinsics names).run ⟨empty, []⟩).2
        (rootsAt .statement [((addIntrinsics names).run ⟨empty, []⟩).1]) ∧
      ((addIntrinsics names).run ⟨empty, []⟩).2.Grammatical := by
  have hname : ∀ name, Reads .statement (do addNode (← position) (.intrinsicStatement name))
      (fun later _ n => later.kind? n) (.intrinsicStatement name) :=
    fun name => .leaf rfl (fun _ => ⟨nofun, nofun⟩) rfl fun n later depth hkind => hkind
  have hglobal : Lowers ⟨empty, []⟩ (fun _ _ => True) [] (addIntrinsics names)
      (fun n after => after = rootsAt .statement [n]) fun _ _ _ => True :=
    .part (.mapM hname names) fun ids => .node (fun _ => rfl)
      (fun _ _ _ hadds => hadds.addScope (by simp)
        (fun r hr => by simp [(mem_rootsAt.mp hr).2]) rfl nofun)
      fun n later depth ⟨_, hids⟩ hkind => ⟨⟨nofun, fun c hc => by
        obtain ⟨kind, hmem, hread⟩ := exists_of_mapM hids c hc
        obtain ⟨name, -, rfl⟩ := mem_map.mp hmem
        exact ⟨_, hread, rfl⟩⟩, trivial⟩
  obtain ⟨⟨_, rfl, hadds⟩, hext⟩ := hglobal _
    (.refl (by constructor <;> simp [children, parent?, kind?, node?_empty])) fun _ _ _ _ => trivial
  exact ⟨hadds, hext.grammatical (by constructor <;> simp [kind?, node?_empty])⟩

theorem addIntrinsics_complete (names : List String)
    (hroot : ((addIntrinsics names).run ⟨empty, []⟩).1 = globalNamespace)
    (hglobal : ((addIntrinsics names).run ⟨empty, []⟩).2.parent? globalNamespace = none ∧
      ∃ parts, ((addIntrinsics names).run ⟨empty, []⟩).2.kind? globalNamespace =
        some (.namespaceStatement parts))
    (hchild : ∀ n ∈ ((addIntrinsics names).run ⟨empty, []⟩).2.children globalNamespace,
      ∃ name, ((addIntrinsics names).run ⟨empty, []⟩).2.kind? n =
        some (.intrinsicStatement name)) :
    ((addIntrinsics names).run ⟨empty, []⟩).2.Complete := by
  have hscope := (addIntrinsics_reads names).1
  have hfiles : ((addIntrinsics names).run ⟨empty, []⟩).2.files = [] := hscope.files
  refine ⟨hscope.wellFormed, ?_, ?_, ?_, hglobal, fun {n} hn => hchild n hn, ?_⟩
  · intro n kind hkind hpar
    rcases hscope.root_cases hkind hpar with ⟨hold, -⟩ | hnew
    · simp [kind?, node?_empty] at hold
    · rw [map_fst_rootsAt] at hnew
      exact .inl ((mem_singleton.mp hnew).trans hroot)
  · rw [hfiles]
    exact nodup_nil
  · intro f hf
    simp [hfiles] at hf
  · intro f n hf
    simp [hfiles] at hf

theorem initial_complete : initial.Complete :=
  addIntrinsics_complete intrinsicNames (by decide +kernel) (by
    refine ⟨by decide +kernel, ⟨"", (List.range intrinsicNames.length).map .mk, false, []⟩, ?_⟩
    decide +kernel)
    (by
    have hall : (initial.children globalNamespace).all (fun n => intrinsicNames.any fun name =>
        initial.kind? n = some (.intrinsicStatement name)) = true := by decide +kernel
    intro n hn
    obtain ⟨name, -, hname⟩ := any_eq_true.mp (all_eq_true.mp hall n hn)
    exact ⟨name, of_decide_eq_true hname⟩)

/-- Adding a file keeps a tree complete. -/
theorem Complete.addFile (h : tree.Complete) (file : SourceFile) :
    ((Tree.addFile file).run tree).2.Complete := by
  obtain ⟨hscope, hext⟩ := (addFileNode_reads file).run h.toWellFormed
  have hnew : (addNode tree.size (.sourceFile file.name (addStatements file.body tree).1)
      (addStatements file.body tree).2).2.node? ⟨(addStatements file.body tree).2.size⟩ =
        some ⟨.sourceFile file.name (addStatements file.body tree).1,
          ⟨tree.size, (addStatements file.body tree).2.size + 1⟩, none⟩ := by
    rw [node?_addNode, if_pos rfl]
  have hfile : ∀ f ∈ tree.files, f.index < tree.size := fun f hf => by
    obtain ⟨-, fileName, statements, hkind⟩ := h.file_root hf
    exact index_lt_size_of_kind hkind
  have hsize : tree.size ≤ (addStatements file.body tree).2.size := (hscope.root _ (.head _)).1
  have hold : ∀ n : NodeId, n.index < tree.size →
      ((Tree.addFile file).run tree).2.parent? n = tree.parent? n ∧
        ((Tree.addFile file).run tree).2.kind? n = tree.kind? n := fun n hn =>
    ⟨congrArg (·.bind Node.parent) (hscope.old n hn), congrArg (·.map Node.kind) (hscope.old n hn)⟩
  -- The list of files grows by the new node; all that is said of nodes is said of its tree.
  have hfiles : ((Tree.addFile file).run tree).2.files =
      tree.files ++ [⟨(addStatements file.body tree).2.size⟩] :=
    congrArg (· ++ [_]) hscope.files
  refine ⟨{ hscope.wellFormed with }, ?_, ?_, ?_, ?_, ?_, ?_⟩
  · intro n kind hkind hpar
    rw [hfiles, mem_append]
    rcases hscope.root_cases hkind hpar with ⟨hold, hnone⟩ | hnew
    · exact (h.root hold hnone).imp_right Or.inl
    · rw [map_fst_rootsAt] at hnew
      exact .inr (.inr hnew)
  · rw [hfiles, nodup_append]
    refine ⟨h.files_nodup, by simp, fun a ha b hb hab => ?_⟩
    rw [mem_singleton] at hb
    have hlt := hfile a ha
    rw [hab, hb] at hlt
    simp only at hlt
    omega
  · intro f hf
    rw [hfiles, mem_append, mem_singleton] at hf
    rcases hf with hf | rfl
    · obtain ⟨hpar, fileName, statements, hkind⟩ := h.file_root hf
      exact ⟨(hold f (hfile f hf)).1.trans hpar, fileName, statements,
        (hold f (hfile f hf)).2.trans hkind⟩
    · refine ⟨?_, file.name, (addStatements file.body tree).1, ?_⟩
      · exact congrArg (·.bind Node.parent) hnew
      · exact congrArg (·.map Node.kind) hnew
  · obtain ⟨hpar, parts, hkind⟩ := h.global_root
    have hlt := index_lt_size_of_kind hkind
    exact ⟨(hold _ hlt).1.trans hpar, parts, (hold _ hlt).2.trans hkind⟩
  · intro n hn
    obtain ⟨-, parts, hkind⟩ := h.global_root
    have hlt := index_lt_size_of_kind hkind
    rw [children, (hold _ hlt).2] at hn
    obtain ⟨name, hname⟩ := h.intrinsics hn
    exact ⟨name, (hold n (index_lt_size_of_kind hname)).2.trans hname⟩
  · intro f n hf hn
    rw [hfiles, mem_append, mem_singleton] at hf
    rcases hf with hf | rfl
    · rw [children, (hold f (hfile f hf)).2] at hn
      obtain ⟨kind, hkind, hstmt⟩ := h.statements hf hn
      exact ⟨kind, (hold n (index_lt_size_of_kind hkind)).2.trans hkind, hstmt⟩
    · exact isStatement_of_readFile (hext.result (.refl _) (Nat.le_refl _)) n hn

theorem Complete.addFile_extends (h : tree.Complete) (file : SourceFile) :
    tree.Extends (Tree.addFile file) fun n later depth =>
      later.readFile depth n = some ⟨file.name, Statement.nestedAll file.body⟩ := by
  obtain ⟨-, hkeeps, hgram, hread⟩ := (addFileNode_reads file).run h.toWellFormed
  -- Listing the file changes no node.
  exact ⟨{ hkeeps with }, fun h => { hgram h with }, fun hlater => hread { hlater with }⟩

theorem Complete.addFiles (h : tree.Complete) (files : List SourceFile) :
    ((files.mapM Tree.addFile).run tree).2.Complete ∧
      tree.Extends (files.mapM Tree.addFile) fun _ _ _ => True := by
  induction files generalizing tree with
  | nil => exact ⟨h, .refl tree, id, fun _ _ => trivial⟩
  | cons file rest ih =>
    have hfirst := h.addFile_extends file
    obtain ⟨hcomp, hrest⟩ := ih (h.addFile file)
    rw [mapM_cons]
    exact ⟨hcomp, hfirst.keeps.trans hrest.keeps, hrest.grammatical ∘ hfirst.grammatical,
      fun _ _ => trivial⟩

/-- The tree of a list of files is complete. -/
theorem ofFiles_complete (files : List SourceFile) : (ofFiles files).Complete :=
  (initial_complete.addFiles files).1

/-- The tree of a list of files is grammatical. -/
theorem ofFiles_grammatical (files : List SourceFile) : (ofFiles files).Grammatical :=
  (initial_complete.addFiles files).2.grammatical (addIntrinsics_reads intrinsicNames).2

/-- A file that has been added is read back, whatever is added after it. -/
theorem readFile_addFile (before : List SourceFile) (file : SourceFile) (after : List SourceFile) :
    let (n, added) := (addFile file).run (ofFiles before)
    let later := ((after.mapM addFile).run added).2
    later.readFile later.size n = some ⟨file.name, Statement.nestedAll file.body⟩ := by
  have hbefore := ofFiles_complete before
  have hkeeps := ((hbefore.addFile file).addFiles after).2.keeps
  exact (hbefore.addFile_extends file).result hkeeps hkeeps.size_le

end ApiSchema.Tree
