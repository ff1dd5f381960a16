import ApiSchema.Proofs.Checking.LexicalScoping

/-!
# What `using` statements change

A `using` statement enters names into one table of local names, where the names that were there
before win. The table of a file is the last one that a name is looked up in, so that only names that
stood for nothing can change. The table of a namespace statement comes after what the namespace
exports and after all scopes further in.
-/

namespace ApiSchema

open Option List

/-- Names that are bound stay bound to the same symbol when more names are set. -/
theorem SymbolTable.find?_foldl_set_of_some {table : SymbolTable}
    {entries : List (String × SymbolId)} {key : String} {id : SymbolId}
    (h : table.find? key = some id) :
    (entries.foldl (fun table entry => table.set entry.1 entry.2) table).find? key = some id := by
  induction entries generalizing table with
  | nil => exact h
  | cons entry rest ih =>
    refine ih ?_
    rw [find?_set_eq]
    split
    next heq =>
      rw [← heq, h]
      rfl
    · exact h

namespace Checking

open Bindings

variable {tree : Tree} {s s' : State} {owner n : NodeId} {exports : SymbolTable} {key : String}

/-- What a name stands for by the tables of one scope. -/
def State.boundAt? (s : State) (tree : Tree) (key : String) (scope : NodeId) : Option SymbolId :=
  (s.tablesOfScope tree scope).findSome? fun table => table.find? key

/-- What a name stands for by the local names of a node. -/
def State.local? (s : State) (key : String) (node : NodeId) : Option SymbolId :=
  (s.bindings.locals.find? node).bind fun table => table.find? key

/-- Names go on to stand for what they stand for, and others change in the file only. -/
structure ConservativeInFile (tree : Tree) (file : NodeId) (s s' : State) : Prop where
  stays (n : NodeId) (key : String) (id : SymbolId) : s.resolve? tree n key = some id →
    s'.resolve? tree n key = some id
  inside (n : NodeId) (key : String) : s'.resolve? tree n key ≠ s.resolve? tree n key →
    file ∈ tree.ancestors n

/-- Names change inside the namespace statement only, and only such that neither the namespace
exports nor a scope further in binds. -/
structure ConservativeInNamespace (tree : Tree) (owner : NodeId) (s s' : State) : Prop where
  changed (n : NodeId) (key : String) : s'.resolve? tree n key ≠ s.resolve? tree n key →
    owner ∈ tree.ancestors n ∧ (s.bindings.symbolOf? owner).bind (s.exported? key) = none ∧
    ∀ scope ∈ tree.ancestors n, owner ∈ tree.ancestors scope → s.boundAt? tree key scope = none

/-! ### Looking names up scope by scope -/

theorem findSome?_localsOf (key : String) (node : NodeId) :
    ((s.localsOf node).findSome? fun table => table.find? key) = s.local? key node := by
  rw [State.localsOf, State.local?]
  cases s.bindings.locals.find? node <;> simp

/-- The tables that are searched after those of the scopes in a file: what the namespaces export
that the file has open, and the global namespace. -/
def State.openTables (s : State) (tree : Tree) (n : NodeId) : List SymbolTable :=
  ((tree.ancestors n).find? tree.isSourceFile).toList.flatMap
      (fun file => (s.bindings.openNamespacesOf file).flatMap s.exportsOfNode) ++
    (s.mergedExports? globalSymbol).toList

/-- A name is looked up scope by scope, then in what is open, and last among the local names of the
file. -/
theorem resolve?_eq (s : State) (tree : Tree) (n : NodeId) (key : String) :
    s.resolve? tree n key =
      (((tree.ancestors n).takeWhile fun scope => !tree.isSourceFile scope).findSome?
        (s.boundAt? tree key)).or (((s.openTables tree n).findSome? fun table => table.find? key).or
          (((tree.ancestors n).find? tree.isSourceFile).bind (s.local? key))) := by
  have hscopes : ∀ scopes : List NodeId, ((scopes.flatMap (s.tablesOfScope tree)).findSome?
      fun table => table.find? key) = scopes.findSome? (s.boundAt? tree key) := by
    intro scopes
    induction scopes with
    | nil => rfl
    | cons scope rest ih =>
      rw [flatMap_cons, findSome?_append, ih, findSome?_cons, State.boundAt?]
      cases (s.tablesOfScope tree scope).findSome? fun table => table.find? key <;> rfl
  have hfile : (((tree.ancestors n).find? tree.isSourceFile).toList.flatMap s.localsOf).findSome?
      (fun table => table.find? key) =
        ((tree.ancestors n).find? tree.isSourceFile).bind (s.local? key) := by
    cases (tree.ancestors n).find? tree.isSourceFile with
    | none => rfl
    | some file => simp [findSome?_localsOf]
  simp only [State.resolve?, State.visibleTables, State.openTables, findSome?_append, hscopes,
    hfile, Option.or_assoc]

/-! ### Imports -/

/-- Imported names come after the local names that were there before. -/
theorem local?_withImports (s : State) (owner : NodeId) (exports : SymbolTable) (key : String) :
    ∃ imported, ∀ n, (s.withImports owner exports).local? key n =
      if n = owner then (s.local? key n).or imported else s.local? key n := by
  refine ⟨(s.withImports owner exports).local? key owner, fun n => ?_⟩
  split
  next heq =>
    subst heq
    cases hlocal : s.local? key n with
    | none => rfl
    | some id =>
      obtain ⟨table, htable, hid⟩ := bind_eq_some_iff.mp hlocal
      rw [State.local?, State.withImports, modifyLocals, OrderedMap.find?_insert_self, htable]
      exact SymbolTable.find?_foldl_set_of_some hid
  next hne =>
    rw [State.local?, State.withImports, modifyLocals, OrderedMap.find?_insert, if_neg hne]
    rfl

/-- A namespace statement binds what the namespace exports and then its local names, a template
declaration its local names. -/
theorem boundAt?_eq (s : State) (tree : Tree) (key : String) (scope : NodeId) :
    s.boundAt? tree key scope = if tree.isNamespace scope then
        ((s.bindings.symbolOf? scope).bind (s.exported? key)).or (s.local? key scope)
      else if tree.templateParameters scope = [] then none else s.local? key scope := by
  rw [State.boundAt?, State.tablesOfScope, Tree.isNamespace, Tree.templateParameters]
  split
  next hkind =>
    rw [findSome?_append, findSome?_exportsOfNode, findSome?_localsOf, hkind]
    rfl
  next kind hnot hkind =>
    have hplain : kind.isNamespace = false := by
      cases kind <;> simp_all
    simp only [hkind, any_some, hplain, map_some, getD_some,
      List.isEmpty_iff, Bool.false_eq_true, if_false]
    split
    · rfl
    · exact findSome?_localsOf key scope
  next hkind =>
    simp [hkind]

/-- The local names of a file are looked up last. -/
theorem withImports_conservativeInFile {name : String} {statements : List NodeId}
    (hkind : tree.kind? owner = some (.sourceFile name statements)) (s : State)
    (exports : SymbolTable) : ConservativeInFile tree owner s (s.withImports owner exports) := by
  suffices hall : ∀ n key, (∀ id, s.resolve? tree n key = some id →
      (s.withImports owner exports).resolve? tree n key = some id) ∧
      ((s.withImports owner exports).resolve? tree n key ≠ s.resolve? tree n key →
        owner ∈ tree.ancestors n) from ⟨fun n key => (hall n key).1, fun n key => (hall n key).2⟩
  intro n key
  obtain ⟨imported, hlocal⟩ := local?_withImports s owner exports key
  have hbound : (s.withImports owner exports).boundAt? tree key = s.boundAt? tree key := by
    funext scope
    rw [boundAt?_eq, boundAt?_eq, hlocal]
    by_cases hscope : scope = owner
    · simp [hscope, Tree.isNamespace, Tree.templateParameters, hkind]
    · rw [if_neg hscope]
      rfl
  have hopen : (s.withImports owner exports).openTables tree n = s.openTables tree n := rfl
  rw [resolve?_eq, resolve?_eq, hbound, hopen]
  cases hfile : (tree.ancestors n).find? tree.isSourceFile with
  | none => exact ⟨fun _ h => h, fun hne => absurd rfl hne⟩
  | some file =>
    rw [bind_some, bind_some, hlocal]
    split
    next heq =>
      subst heq
      rw [← Option.or_assoc, ← Option.or_assoc, ← Option.or_assoc]
      exact ⟨fun id hid => by rw [hid, Option.some_or], fun _ => mem_of_find?_eq_some hfile⟩
    · exact ⟨fun _ h => h, fun hne => absurd rfl hne⟩

/-- Where scopes are searched from the inside out and only one of them finds more than before, names
change inside it only, and only such that neither it nor a scope further in has found. -/
theorem findSome?_changed (hwf : tree.WellFormed) {f g : NodeId → Option SymbolId}
    {imported : Option SymbolId}
    (hg : ∀ scope, g scope = if scope = owner then (f scope).or imported else f scope)
    (hne : ((tree.ancestors n).takeWhile fun scope => !tree.isSourceFile scope).findSome? g ≠
      ((tree.ancestors n).takeWhile fun scope => !tree.isSourceFile scope).findSome? f) :
    owner ∈ tree.ancestors n ∧ f owner = none ∧
      ∀ scope ∈ tree.ancestors n, owner ∈ tree.ancestors scope → f scope = none := by
  induction n using hwf.upward_induction with
  | step n ih =>
    cases hpar : tree.parent? n with
    | none => simp [Tree.WellFormed.ancestors_of_root hpar] at hne
    | some m =>
      rw [hwf.ancestors_of_parent hpar] at hne ⊢
      rw [takeWhile_cons] at hne
      split at hne
      · rw [findSome?_cons, findSome?_cons, hg] at hne
        cases hm : f m with
        | some id => simp [hm] at hne
        | none =>
          by_cases heq : m = owner
          · subst heq
            refine ⟨mem_cons_self, hm, fun scope hscope hinside => ?_⟩
            have hlt := hwf.lt_of_mem_ancestors hinside
            have hle := hwf.index_le_of_mem_selfAndAncestors (n := m) hscope
            omega
          · simp only [hm, if_neg heq] at hne
            obtain ⟨hmem, howner, hinner⟩ := ih m hpar hne
            refine ⟨mem_cons_of_mem _ hmem, howner, fun scope hscope hinside => ?_⟩
            rcases mem_cons.mp hscope with rfl | hscope
            · exact hm
            · exact hinner scope hscope hinside
      · exact absurd rfl hne

/-- The local names of a namespace statement are looked up after what the namespace exports. -/
theorem withImports_conservativeInNamespace (hwf : tree.WellFormed) {parts : NamespaceNode}
    (hkind : tree.kind? owner = some (.namespaceStatement parts)) (s : State)
    (exports : SymbolTable) :
    ConservativeInNamespace tree owner s (s.withImports owner exports) := by
  refine ⟨fun n key hne => ?_⟩
  obtain ⟨imported, hlocal⟩ := local?_withImports s owner exports key
  have hns : tree.isNamespace owner = true := by
    simp [Tree.isNamespace, hkind]
  have hbound : ∀ scope, (s.withImports owner exports).boundAt? tree key scope =
      if scope = owner then (s.boundAt? tree key scope).or imported
      else s.boundAt? tree key scope := by
    intro scope
    rw [boundAt?_eq, boundAt?_eq, hlocal]
    by_cases hscope : scope = owner
    · subst hscope
      rw [if_pos hns, if_pos hns, if_pos rfl, if_pos rfl, Option.or_assoc]
      rfl
    · rw [if_neg hscope, if_neg hscope]
      rfl
  have hfile : ((tree.ancestors n).find? tree.isSourceFile).bind
      ((s.withImports owner exports).local? key) =
        ((tree.ancestors n).find? tree.isSourceFile).bind (s.local? key) := by
    cases hfound : (tree.ancestors n).find? tree.isSourceFile with
    | none => rfl
    | some file =>
      rw [bind_some, bind_some, hlocal, if_neg]
      rintro rfl
      simpa [Tree.isSourceFile, hkind] using find?_some hfound
  have hopen : (s.withImports owner exports).openTables tree n = s.openTables tree n := rfl
  obtain ⟨hmem, howner, hinner⟩ := findSome?_changed hwf hbound fun heq =>
    hne (by rw [resolve?_eq, resolve?_eq, heq, hfile, hopen])
  rw [boundAt?_eq, if_pos hns, or_eq_none_iff] at howner
  exact ⟨hmem, howner.1, hinner⟩

/-! ### The `using` statements of a program -/

/-- The state in which the `using` statements of a program start to be carried out. -/
def mergedState (program : Program) : State :=
  State.mergeFiles { State.initial program.bindings with initialized := true } program.tree.files

/-- A `using` statement changes names in the file or the namespace statement around it only, and
there only names that nothing nearer gives a meaning to. -/
theorem checkUsing_conservative {env : Environment} (hc : env.tree.Complete)
    {statement target : NodeId} {u : Unit}
    (hkind : env.tree.kind? statement = some (.usingStatement target))
    (hrun : checkUsing statement env s = some (u, s')) :
    ∃ owner, env.tree.parent? statement = some owner ∧
      (env.tree.isSourceFile owner = true ∧ ConservativeInFile env.tree owner s s' ∨
        env.tree.isNamespace owner = true ∧ ConservativeInNamespace env.tree owner s s') := by
  have hwf := hc.toWellFormed
  obtain ⟨owner, howner⟩ : ∃ owner, env.tree.parent? statement = some owner := by
    cases hpar : env.tree.parent? statement with
    | some owner => exact ⟨owner, rfl⟩
    | none => exact absurd (hc.isScope_of_root hkind hpar) (by simp)
  obtain ⟨outer, houter, -⟩ := hwf.exists_kind_parent howner
  have hscope := hwf.scope_of_statement howner hkind rfl houter
  refine ⟨owner, howner, ?_⟩
  rcases checkUsing_cases hwf hrun with hquiet | ⟨s₁, id, exports, other, hquiet, -, hother, rfl⟩
  · have hsame : s'.resolve? = s.resolve? := by
      rw [hquiet.eq]
      rfl
    cases outer <;> simp at hscope
    · refine .inl ⟨by simp [Tree.isSourceFile, houter], ?_⟩
      exact ⟨fun _ _ _ h => hsame ▸ h, fun _ _ hne => absurd (by rw [hsame]) hne⟩
    · refine .inr ⟨by simp [Tree.isNamespace, houter], ?_⟩
      exact ⟨fun _ _ hne => absurd (by rw [hsame]) hne⟩
  · obtain rfl := mem_unique howner hother
    rw [hquiet.eq]
    cases outer <;> simp at hscope
    · exact .inl ⟨by simp [Tree.isSourceFile, houter],
        { withImports_conservativeInFile houter { s with diagnostics := s₁.diagnostics } exports with }⟩
    · exact .inr ⟨by simp [Tree.isNamespace, houter],
        { withImports_conservativeInNamespace hwf houter { s with diagnostics := s₁.diagnostics }
            exports with }⟩

/-- When the `using` statements of a program are carried out one after the other, then one in a file
never changes what a name stands for, and gives names a meaning in that file only. One in a
namespace statement changes names inside that statement only, and only such that neither the
namespace exports nor a scope further in binds. -/
theorem using_statements_conservative (options : Options) (registry : Registry)
    (files : List SourceFile) {before after : List NodeId} {statement : NodeId}
    (husings : (Program.ofFiles options registry files).bindings.usings =
      before ++ statement :: after) :
    let program := Program.ofFiles options registry files
    ∃ s s' owner, before.forM checkUsing program.environment (mergedState program) = some ((), s) ∧
      checkUsing statement program.environment s = some ((), s') ∧
      program.tree.parent? statement = some owner ∧
      (program.tree.isSourceFile owner = true ∧ ConservativeInFile program.tree owner s s' ∨
        program.tree.isNamespace owner = true ∧
          ConservativeInNamespace program.tree owner s s') := by
  intro program
  have hc : program.tree.Complete := (Reached.initial options registry files).complete
  have hwf : program.environment.tree.WellFormed := hc.toWellFormed
  have hends : ∀ n, Ends program.environment (checkUsing n) := (Ends.rules hwf).checkUsing
  have hall : (Ends.rules hwf).Keeps (before.forM checkUsing) :=
    (Ends.rules hwf).forM fun n _ => hends n
  obtain ⟨⟨⟩, s, hbefore⟩ := hall (mergedState program)
  obtain ⟨⟨⟩, s', hrun⟩ := hends statement s
  obtain ⟨target, hkind⟩ := (program.bindings_opens hc).2 statement
    (husings ▸ mem_append_right _ (.head _))
  obtain ⟨owner, howner, hconservative⟩ := checkUsing_conservative hc hkind hrun
  exact ⟨s, s', owner, hbefore, hrun, howner, hconservative⟩

/-- The harbour uses the tools in all of its file and the boats in its yard, which has a boat of its
own. -/
def harbour : Program :=
  .ofFiles .default (Documentation.install .empty) [
    ⟨"harbour", [.usingDecl "Tools",
      .namespaceDecl "Yard" false [.usingDecl "Boats", .model "Ferry" []] [],
      .model "Pier" [.required "crane" "Crane"]]⟩,
    ⟨"stock", [.namespaceDecl "Tools" false [.model "Crane" []] [],
      .namespaceDecl "Boats" false [.model "Ferry" [], .model "Tug" []] []]⟩]

/-- In the yard a name that stood for nothing is imported, and the boat of the yard stays. -/
theorem using_statements_conservative_harbour :
    harbour.bindings.usings = [⟨21⟩] ++ ⟨23⟩ :: [] ∧
      ∃ s s', [⟨21⟩].forM checkUsing harbour.environment (mergedState harbour) = some ((), s) ∧
        checkUsing ⟨23⟩ harbour.environment s = some ((), s') ∧
        ConservativeInNamespace harbour.tree ⟨25⟩ s s' ∧
        s.resolve? harbour.tree ⟨24⟩ "Tug" = none ∧
        s'.resolve? harbour.tree ⟨24⟩ "Tug" = harbour.bindings.symbolOf? ⟨34⟩ ∧
        s'.resolve? harbour.tree ⟨24⟩ "Ferry" = harbour.bindings.symbolOf? ⟨24⟩ := by
  have husings : harbour.bindings.usings = [⟨21⟩] ++ ⟨23⟩ :: [] := by decide +kernel
  have heval : ([⟨21⟩].forM checkUsing harbour.environment (mergedState harbour)).any (fun first =>
      first.2.resolve? harbour.tree ⟨24⟩ "Tug" = none ∧
        (checkUsing ⟨23⟩ harbour.environment first.2).any (fun second =>
          second.2.resolve? harbour.tree ⟨24⟩ "Tug" = harbour.bindings.symbolOf? ⟨34⟩ ∧
          second.2.resolve? harbour.tree ⟨24⟩ "Ferry" = harbour.bindings.symbolOf? ⟨24⟩) = true) =
        true := by decide +kernel
  obtain ⟨s, s', owner, hbefore, hrun, howner, hconservative⟩ :=
    using_statements_conservative _ _ _ husings
  have hyard : harbour.tree.parent? ⟨23⟩ = some ⟨25⟩ := by decide +kernel
  obtain rfl := mem_unique howner hyard
  have hnamespace := (hconservative.resolve_left fun hfile => absurd hfile.1 (by decide +kernel)).2
  rw [show [⟨21⟩].forM checkUsing harbour.environment (mergedState harbour) = _ from hbefore,
    any_some, decide_eq_true_eq] at heval
  rw [show checkUsing ⟨23⟩ harbour.environment s = _ from hrun, any_some,
    decide_eq_true_eq] at heval
  exact ⟨husings, s, s', hbefore, hrun, hnamespace, heval.1, heval.2.1, heval.2.2⟩

end Checking

end ApiSchema
