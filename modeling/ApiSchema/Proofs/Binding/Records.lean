import ApiSchema.Proofs.Binding.Situated

/-!
# What binding records beside symbols

Binding also notes the `using` statements it meets, the namespaces that a file has implicitly open,
and the local names of declarations. The open namespaces of a file are those of the blockless
namespaces in it. The local names are the template parameters: where several of them have the same
name, it is the first one that is found.
-/

namespace ApiSchema

open List Bindings

namespace Bindings

variable {tree : Tree} {b b' : Bindings}

/-! ### Usings and open namespaces -/

theorem Step.usings (hstep : Step tree b b')
    (h : ∀ n ∈ b.usings, ∃ target, tree.kind? n = some (.usingStatement target)) :
    ∀ n ∈ b'.usings, ∃ target, tree.kind? n = some (.usingStatement target) := by
  cases hstep with
  | @declared scope => cases scope <;> exact h
  | noted hkind => exact forall_mem_append.mpr ⟨h, forall_mem_singleton.mpr ⟨_, hkind⟩⟩
  | _ => exact h

/-- A file has open what its statements open, and the `using` statements that are noted are such
statements. -/
theorem declaring_opens (hc : tree.Complete) (paths : List String) :
    (∀ file ∈ tree.files, (declaring tree paths).openNamespacesOf file =
      opened tree file (tree.children file)) ∧
    ∀ n ∈ (declaring tree paths).usings, ∃ target, tree.kind? n = some (.usingStatement target) :=
  ⟨(declaring_builds hc paths).opens,
    preserves_of_step (fun hstep => hstep.usings) (declaring_builds hc paths).builds.steps
      fun _ hn => absurd hn not_mem_nil⟩

/-! ### Local names -/

/-- The first of some template parameters that has a name. -/
def firstNamed? (tree : Tree) (parameters : List NodeId) (name : String) : Option NodeId :=
  parameters.find? fun p => tree.declaredName? p = some name

/-- The local names of a node are those of its template parameters that have symbols, which are the
first ones. -/
def Local (tree : Tree) (b : Bindings) : Prop :=
  ∀ n, ∃ before rest, tree.templateParameters n = before ++ rest ∧
    (∀ p ∈ before, ∃ id, b.symbolOf? p = some id) ∧ (∀ p ∈ rest, b.symbolOf? p = none) ∧
    ∀ name, ((b.locals.find? n).bind fun table => table.find? name) =
      (firstNamed? tree before name).bind b.symbolOf?

namespace Local

variable (h : Local tree b)

include h

/-- Local names depend on the tables of local names and on the symbols of template parameters. -/
theorem congr (hlocals : ∀ n name, ((b'.locals.find? n).bind fun table => table.find? name) =
      (b.locals.find? n).bind fun table => table.find? name)
    (hsymOf : ∀ n, ∀ p ∈ tree.templateParameters n, b'.symbolOf? p = b.symbolOf? p) :
    Local tree b' := by
  intro n
  obtain ⟨before, rest, hsplit, hbefore, hrest, hfound⟩ := h n
  have hsame : ∀ p ∈ before ++ rest, b'.symbolOf? p = b.symbolOf? p := hsplit ▸ hsymOf n
  refine ⟨before, rest, hsplit, fun p hp => ?_, fun p hp => ?_, fun name => ?_⟩
  · rw [hsame p (mem_append_left _ hp)]
    exact hbefore p hp
  · rw [hsame p (mem_append_right _ hp)]
    exact hrest p hp
  · rw [hlocals, hfound]
    cases hfirst : firstNamed? tree before name with
    | none => rfl
    | some p => exact (hsame p (mem_append_left _ (mem_of_find?_eq_some hfirst))).symm

/-- A further template parameter is found under its name, unless an earlier one is. -/
theorem withParameter (hwf : tree.WellFormed) {declaration p : NodeId} {name : String}
    {before after : List NodeId}
    (hparams : tree.templateParameters declaration = before ++ p :: after)
    (hkind : tree.kind? p = some (.templateParameterDeclaration name))
    (hfresh : b.symbolOf? p = none) (hbefore : ∀ q ∈ before, ∃ id, b.symbolOf? q = some id) :
    Local tree (b.withParameter declaration p name) := by
  have hp : p ∈ tree.templateParameters declaration := by simp [hparams]
  have hsymOf : ∀ q, (b.withParameter declaration p name).symbolOf? q =
      if q = p then some b.symbols.nextId else b.symbolOf? q :=
    symbolOf?_withParameter declaration p name
  have hold : ∀ {q : NodeId}, q ≠ p →
      (b.withParameter declaration p name).symbolOf? q = b.symbolOf? q := fun hne =>
    (hsymOf _).trans (if_neg hne)
  have hlocals : ∀ n, (b.withParameter declaration p name).locals.find? n =
      if n = declaration then
        some (((b.locals.find? declaration).getD .empty).set name b.symbols.nextId)
      else b.locals.find? n := fun n => OrderedMap.find?_insert _ _ _ _
  intro n
  obtain ⟨first, rest, hsplit, hfirst, hrest, hfound⟩ := h n
  by_cases hne : n = declaration
  · subst hne
    -- The parameters with symbols are those before the new one.
    obtain rfl : first = before := by
      have hboth := hsplit.symm.trans hparams
      rcases append_eq_append_iff.mp hboth with ⟨more, hmore, htail⟩ | ⟨more, hmore, htail⟩
      · cases more with
        | nil => simpa using hmore.symm
        | cons q more =>
          obtain ⟨id, hid⟩ := hbefore q (by simp [hmore])
          simp [hrest q (by simp [htail])] at hid
      · cases more with
        | nil => simpa using hmore
        | cons q more =>
          obtain ⟨rfl, -⟩ := List.cons.inj htail
          obtain ⟨id, hid⟩ := hfirst p (by simp [hmore])
          simp [hfresh] at hid
    obtain rfl : rest = p :: after := append_cancel_left (hsplit.symm.trans hparams)
    have hnodup : (p :: after).Nodup :=
      (hparams ▸ hwf.parameters_nodup n).sublist (sublist_append_right _ _)
    have hnot : ∀ q ∈ first, q ≠ p := by
      rintro q hq rfl
      obtain ⟨id, hid⟩ := hbefore q hq
      simp [hfresh] at hid
    refine ⟨first ++ [p], after, by simp [hsplit], fun q hq => ?_, fun q hq => ?_, fun key => ?_⟩
    · rcases mem_append.mp hq with hq | hq
      · rw [hold (hnot q hq)]
        exact hbefore q hq
      · rw [mem_singleton.mp hq, hsymOf, if_pos rfl]
        exact ⟨_, rfl⟩
    · rw [hold]
      · exact hrest q (.tail _ hq)
      · rintro rfl
        exact (nodup_cons.mp hnodup).1 hq
    · have hname : tree.declaredName? p = some name := by
        rw [Tree.declaredName?, hkind]
        rfl
      have hbound : ∀ key, ((b.locals.find? n).getD .empty).find? key =
          (firstNamed? tree first key).bind b.symbolOf? := by
        intro key
        rw [← hfound]
        cases b.locals.find? n <;> rfl
      have hnext : firstNamed? tree (first ++ [p]) key =
          (firstNamed? tree first key).or (if key = name then some p else none) := by
        rw [firstNamed?, find?_append, find?_singleton, hname]
        simp [firstNamed?, eq_comm]
      rw [hlocals, if_pos rfl, Option.bind_some, SymbolTable.find?_set_eq, hbound, hbound, hnext]
      by_cases hkey : key = name
      · subst hkey
        rw [if_pos rfl, if_pos rfl]
        cases hearlier : firstNamed? tree first key with
        | none => simp [hsymOf]
        | some q =>
          have hq := mem_of_find?_eq_some hearlier
          obtain ⟨id, hid⟩ := hbefore q hq
          simp [hold (hnot q hq), hid]
      · rw [if_neg hkey, if_neg hkey, Option.or_none]
        cases hearlier : firstNamed? tree first key with
        | none => rfl
        | some q => exact (hold (hnot q (mem_of_find?_eq_some hearlier))).symm
  · -- The new parameter belongs to one declaration only.
    have hother : ∀ q ∈ first ++ rest, q ≠ p := by
      rintro q hq rfl
      rw [← hsplit] at hq
      exact hne (Option.mem_unique (hwf.parameter_parent hq) (hwf.parameter_parent hp))
    refine ⟨first, rest, hsplit, fun q hq => ?_, fun q hq => ?_, fun key => ?_⟩
    · rw [hold (hother q (mem_append_left _ hq))]
      exact hfirst q hq
    · rw [hold (hother q (mem_append_right _ hq))]
      exact hrest q hq
    · rw [hlocals, if_neg hne, hfound]
      cases hearlier : firstNamed? tree first key with
      | none => rfl
      | some q => exact (hold (hother q (mem_append_left _
          (mem_of_find?_eq_some hearlier)))).symm

/-- A step names parameters in their order. -/
theorem step (hwf : tree.WellFormed) (hstep : Step tree b b') : Local tree b' := by
  -- What declares something else than a template parameter is none.
  have hnode : ∀ {node : NodeId} {nodeKind : NodeKind} {kind : SymbolKind},
      tree.kind? node = some nodeKind → nodeKind.symbolKind? = some kind →
      kind ≠ .templateParameter → ∀ n, ∀ p ∈ tree.templateParameters n, p ≠ node := by
    rintro node nodeKind kind hkind hsym hnot n p hp rfl
    obtain ⟨name, hname⟩ := hwf.exists_parameter_name hp
    obtain rfl := Option.mem_unique hkind hname
    exact hnot (Option.some.inj hsym).symm
  cases hstep with
  | @declared scope name kind node nodeKind hscope hkind hsym hnot =>
    refine h.congr (fun n key => ?_) fun n p hp => ?_
    · cases scope <;> rfl
    · rw [symbolOf?_withDeclaration, if_neg (hnode hkind hsym hnot n p hp)]
  | @reopened scope parts node existing hscope hkind =>
    refine h.congr (fun n key => rfl) fun n p hp => ?_
    rw [symbolOf?_withReopening, if_neg (hnode hkind rfl (by simp) n p hp)]
  | parameter hparams hkind hfresh _ hbefore =>
    exact h.withParameter hwf hparams hkind hfresh hbefore
  | @scope node =>
    refine h.congr (fun n key => ?_) fun _ _ _ => rfl
    change ((OrderedMap.insertIfNew b.locals node .empty).find? n).bind _ = _
    rw [OrderedMap.find?_insertIfNew]
    split
    next heq =>
      rw [heq]
      cases b.locals.find? node <;> rfl
    · rfl
  | located | file | opened | noted | decorator => exact h.congr (fun _ _ => rfl) fun _ _ _ => rfl

end Local

end Bindings

theorem Program.bindings_opens (program : Program) (hc : program.tree.Complete) :
    (∀ file ∈ program.tree.files, program.bindings.openNamespacesOf file =
      opened program.tree file (program.tree.children file)) ∧
    ∀ n ∈ program.bindings.usings, ∃ target, program.tree.kind? n = some (.usingStatement target) :=
  declaring_opens hc program.registry.paths

/-- A declaration of a program has its template parameters as local names, the first one of a name
before the others. -/
theorem Program.bindings_locals (program : Program) (hc : program.tree.Complete) {n : NodeId}
    (hn : program.tree.templateParameters n = [] ∨ ∃ id, program.bindings.symbolOf? n = some id)
    (name : String) :
    ((program.bindings.locals.find? n).bind fun table => table.find? name) =
      (firstNamed? program.tree (program.tree.templateParameters n) name).bind
        program.bindings.symbolOf? := by
  have hbuilds := (program.bindings_builds hc).builds
  have hlocal : Bindings.Local program.tree program.bindings :=
    preserves_of_step (fun hstep h => h.step hc.toWellFormed hstep) hbuilds.steps
      fun n => ⟨[], program.tree.templateParameters n, rfl, by simp, fun p hp =>
        symbolOf?_global (hc.ne_global (hc.parameter_parent hp) (.head _)), fun name => rfl⟩
  have hwhole : Bindings.Whole program.tree program.bindings := by
    refine hbuilds.whole fun {m symbol} hm p hp => ?_
    obtain ⟨-, parts, hkind⟩ := hc.global_root
    have hglobal : m = Tree.globalNamespace := by
      by_contra hne
      simp [symbolOf?_global hne] at hm
    simp [hglobal, Tree.templateParameters, hkind] at hp
  obtain ⟨before, rest, hsplit, hbefore, hrest, hfound⟩ := hlocal n
  obtain rfl : rest = [] := by
    rcases hn with hnone | ⟨id, hid⟩
    · exact (append_eq_nil_iff.mp (hsplit.symm.trans hnone)).2
    · refine eq_nil_iff_forall_not_mem.mpr fun p hp => ?_
      obtain ⟨symbol, hsym⟩ := hwhole hid p (by simp [hsplit, hp])
      simp [hrest p hp] at hsym
  rw [hfound, hsplit, append_nil]

end ApiSchema
