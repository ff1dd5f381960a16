import ApiSchema.Proofs.Checking.Idempotence

/-!
# Internal errors

What a namespace without a block should hold follows it in its file, so that a namespace statement
inside it is bound to no namespace and its check is an error of the checker's own. There are no
other internal errors: all other namespace statements are bound, those that are bound have types
when the files have been merged, and every symbol that is no decorator has a declaration. If there
is a misplaced namespace statement, then the check of a program fails.
-/

namespace ApiSchema

open Bindings Symbol Option

variable {tree : Tree} {n outer inner : NodeId} {cause : InternalError} {target t : TypeId}
  {own : Option TypeId} {template : Option NodeId} {floor : Nat} {known key : List TypeId}

/-! ### Misplaced namespaces -/

/-- A namespace statement stands directly in a namespace without a block. -/
structure Tree.Misplaced (tree : Tree) (outer inner : NodeId) : Prop where
  parent : tree.parent? inner = some outer
  blockless : ∃ parts, tree.kind? outer = some (.namespaceStatement parts) ∧ parts.blockless = true
  isNamespace : ∃ parts, tree.kind? inner = some (.namespaceStatement parts)

/-- A namespace statement in a namespace is one of its statements. -/
theorem Tree.WellFormed.mem_statements (hwf : tree.WellFormed) {m : NodeId}
    {inner outer : NamespaceNode} (hn : tree.kind? n = some (.namespaceStatement inner))
    (hm : tree.kind? m = some (.namespaceStatement outer)) (hpar : tree.parent? n = some m) :
    n ∈ outer.statements := by
  have hmem := hwf.mem_of_parent hpar
  simp only [Tree.children, hm, map_some, getD_some, NodeKind.children,
    List.mem_append] at hmem
  refine hmem.resolve_left fun hdeco => ?_
  have hpart := hwf.role_of_decorator (n := m)
    (by simpa [Tree.decorators, hm, NodeKind.decorators] using hdeco) hn
  simp [NodeKind.role] at hpart

section

variable (program : Program) (hc : program.tree.Complete)

include hc

/-- A misplaced namespace statement has no symbol. -/
theorem Program.symbolOf?_of_misplaced (h : program.tree.Misplaced outer inner) :
    program.bindings.symbolOf? inner = none := by
  obtain ⟨parts, hkind⟩ := h.isNamespace
  obtain ⟨outerParts, houter, hless⟩ := h.blockless
  refine eq_none_iff_forall_ne_some.mpr fun id hid => ?_
  have hne := hc.ne_global h.parent (.head _)
  obtain ⟨scope, i, hsite⟩ := (program.bindings_situated hc).site_of_namespace hc hid hkind hne
  -- The node around it is the namespace without a block.
  have hinside : ∀ {m kind}, program.tree.kind? m = some kind → inner ∈ kind.children →
      kind = .namespaceStatement outerParts := fun {m kind} hm hmem => by
    have hchild : inner ∈ program.tree.children m := by simpa [Tree.children, hm] using hmem
    obtain rfl := mem_unique h.parent (hc.parent_of_mem hchild)
    exact mem_unique hm houter
  cases hsite.scopes with
  | intrinsic hmem =>
    obtain ⟨name, hname⟩ := hc.intrinsics hmem
    simp [hkind] at hname
  | file _ hsource | captured _ hsource =>
    exact absurd (hinside hsource (by simp)) (by simp)
  | block hblock hfalse hmem =>
    obtain rfl := NodeKind.namespaceStatement.inj
      (hinside hblock (by simp [hmem]))
    simp [hfalse] at hless

/-- Every namespace statement has a symbol, if none is misplaced in a namespace with a symbol. -/
theorem Program.symbolOf?_or_misplaced {parts : NamespaceNode}
    (hkind : program.tree.kind? n = some (.namespaceStatement parts)) :
    (∃ id, program.bindings.symbolOf? n = some id) ∨ ∃ outer inner,
      program.tree.Misplaced outer inner ∧ ∃ id, program.bindings.symbolOf? outer = some id := by
  have hbuilds := program.bindings_builds hc
  induction n using hc.upward_induction generalizing parts with
  | step n ih =>
    have hbound : Bindings.Bound program.tree program.bindings n →
        ∃ id, program.bindings.symbolOf? n = some id := fun h =>
      h _ _ hkind rfl (by simp)
    cases hpar : program.tree.parent? n with
    | none =>
      rcases hc.root hkind hpar with rfl | hfile
      · exact .inl ⟨_, (program.bindings_situated hc).global_node⟩
      · obtain ⟨-, name, statements, hsource⟩ := hc.file_root hfile
        simp [hkind] at hsource
    | some m =>
      obtain ⟨outer, houter, hchild⟩ := hc.exists_kind_parent hpar
      have hscope := hc.scope_of_statement hpar hkind rfl houter
      cases outer with
      | sourceFile name statements =>
        exact .inl (hbound (hbuilds.bound (hc.parent_of_file houter rfl) (hc.mem_of_parent hpar)))
      | namespaceStatement outer =>
        rcases ih m hpar houter with ⟨id, hid⟩ | hmis
        · cases hless : outer.blockless with
          | true =>
            exact .inr ⟨m, n, ⟨hpar, ⟨outer, houter, hless⟩, parts, hkind⟩, id, hid⟩
          | false =>
            rcases hbuilds.builds.inner houter hless ⟨id, hid⟩ with ⟨other, hother⟩ | hinner
            · -- Only the global namespace has a symbol before the files are bound.
              have hglobal : m = Tree.globalNamespace := by
                by_contra hne
                simp [symbolOf?_global hne] at hother
              obtain ⟨name, hname⟩ := hc.intrinsics (hglobal ▸ hc.mem_of_parent hpar)
              simp [hkind] at hname
            · exact .inl (hbound (hinner n (hc.mem_statements hkind houter hpar)))
        · exact .inr hmis
      | _ => simp at hscope

end

namespace Checking

variable {env : Environment} {origin s s' s₁ : State} {program : Program}

/-! ### What is raised by checks -/

/-- Every internal error is one that is called for at the origin, and a failure that is an internal
error is one of them. The types of namespaces are those of the origin. -/
structure Accounted (env : Environment) (origin s : State) : Prop where
  bindings : s.bindings = origin.bindings
  namespaces (symbol : SymbolId) : s.namespaceTypeOf? symbol = origin.namespaceTypeOf? symbol
  errors {cause : InternalError} : cause ∈ s.errors → Warranted env origin cause
  failure {cause : InternalError} : s.failure = some (.internal cause) → cause ∈ s.errors

namespace Accounted

section

variable (h : Accounted env origin s)

include h

theorem frame (hframe : Frame none s s') (herrors : s'.errors = s.errors)
    (hfail : s'.failure = s.failure ∨ ∃ name cause, s'.failure = some (.decorator name cause)) :
    Accounted env origin s' where
  bindings := hframe.bindings.trans h.bindings
  namespaces symbol := (hframe.namespaceTypeOf symbol).trans (h.namespaces symbol)
  errors hcause := h.errors (herrors ▸ hcause)
  failure hcause := by
    rw [herrors]
    rcases hfail with heq | ⟨name, cause, heq⟩
    · exact h.failure (heq ▸ hcause)
    · simp [heq] at hcause

theorem raise (hcause : Warranted env s cause) :
    Accounted env origin (s.raise cause) where
  bindings := h.bindings
  namespaces := h.namespaces
  errors hother := by
    rcases List.mem_cons.mp hother with rfl | hother
    · cases hcause with
      | undeclared hsym hnot hnone => exact .undeclared (h.bindings ▸ hsym) hnot hnone
      | untyped hkind hnone =>
        refine .untyped hkind ?_
        rwa [← h.bindings, ← funext h.namespaces]
    · exact h.errors hother
  failure := fun {other} hother => by
    cases hfail : s.failure with
    | none =>
      rw [State.raise, hfail, none_or, Option.some.injEq, CheckError.internal.injEq] at hother
      exact hother ▸ List.mem_cons_self
    | some failure =>
      rw [State.raise, hfail, some_or] at hother
      exact .tail _ (h.failure (hfail.trans hother))

theorem decorated {applications : List DecoratorApplication}
    (hdec : Decorated target applications s s') :
    Accounted env origin s' :=
  h.frame (.ofDecorated hdec) (by rw [hdec.eq]) hdec.failure

theorem finished {finish : Bool} (hfin : Finished finish target s s') :
    Accounted env origin s' := by
  rcases hfin with rfl | ⟨-, hdec⟩
  · exact h
  · exact h.decorated hdec

theorem addRow (row : TypeRecord) : Accounted env origin (s.addRow row) := { h with }

theorem modifyTypes (f : TypeTable → TypeTable) :
    Accounted env origin (s.modifyTypes f) := { h with }

theorem enlist (tree : Tree) (n : NodeId) (t : TypeId) :
    Accounted env origin (s.enlist tree n t) := by
  rw [State.enlist_eq]
  exact h.modifyTypes fun _ => _

theorem declare (symbol : Option SymbolId) (known type : TypeId) (isTemplate : Bool)
    (key : List TypeId) :
    Accounted env origin (s.declare symbol known type isTemplate key) :=
  h.frame (declare_frame _ _ _ _ _) (by rw [State.declare_eq]) (.inl (by rw [State.declare_eq]))

theorem closed {node : NodeId} {isTemplate instantiating : Bool}
    (hclosed : Closed env.tree node key t isTemplate instantiating s s') :
    Accounted env origin s' := by
  cases hclosed with
  | instantiated => exact { h with }
  | declared heq =>
    have hdecl := heq ▸ (h.declare (s.bindings.symbolOf? node) t t isTemplate key).enlist
      env.tree node t
    exact { hdecl with }

end

end Accounted

theorem accounted_stepwise :
    Stepwise env own fun s s' => Accounted env origin s → Accounted env origin s' where
  refl _ := id
  trans h h' := h' ∘ h
  quiet hquiet h := h.frame (.ofQuiet hquiet) (by rw [hquiet.eq]) (.inl (by rw [hquiet.eq]))
  raised hcause h := h.raise hcause
  added _ _ _ hfin h := (h.addRow _).finished hfin
  assembled _ _ h := h.addRow _
  literal _ _ _ _ h := { h with }
  parameter _ h := { h with }
  intrinsic _ _ h := (h.addRow _).declare _ _ _ _ _
  reference _ _ h := { h with }
  instantiated s symbol arguments t h :=
    h.frame (.modifyLinks (fun _ => rfl) fun _ u hknown => ⟨u, hknown⟩) rfl (.inl rfl)
  within := fun {s s₁ context} _ _ hinside h => by
    have hafter : Accounted env origin s₁ := hinside { h with }
    exact { hafter with }

section

variable {check : Check}
  (hcheck : Relates env (fun s s' => Accounted env origin s → Accounted env origin s') check)

include hcheck

theorem Accounted.leads {P : List TypeId → Prop} (h : Accounted env origin s)
    (hleads : Leads env check template own floor s known s' P) : Accounted env origin s' :=
  accounted_stepwise.ofLeads hcheck (fun _ _ _ h => h.modifyTypes _)
    (fun _ _ _ h => { h with }) hleads h

theorem Accounted.completes (h : Accounted env origin s)
    (hcomps : Completes env check template t floor s s₁ s' known) :
    Accounted env origin s' := by
  obtain ⟨finish, hfin, -⟩ := hcomps.finished
  exact (h.leads hcheck hcomps.filled).finished hfin

end

/-- All checks raise only what is called for. -/
theorem accounted_evolution (hwf : env.tree.WellFormed) :
    Evolution env fun s s' => Accounted env origin s → Accounted env origin s' where
  toStepwise := accounted_stepwise
  construct := fun {check node s s₁ s₂ s' key stub marks} hcheck _ _ hkey _ _ hbuilt hclosed h => by
    obtain ⟨_, hcomps⟩ := hbuilt.completes hwf hcheck.framed
    have hopened : Accounted env origin (s₁.opened node key stub marks) := { hkey h with }
    have hbuilt := hopened.completes hcheck hcomps
    have hleft : Accounted env origin { s₂ with building := s₁.building } := { hbuilt with }
    exact hleft.closed hclosed
  expression := fun {check node s s₁ members} hcheck hkind hmems h => by
    have hopened : Accounted env origin (s.drafted node) := { h with }
    have hbuilt := hopened.leads hcheck (checkExpression_leads hwf hcheck.framed hkind hmems)
    exact { hbuilt with }
  enum hcheck _ _ hbefore _ _ _ hafter h :=
    ((((hbefore h).addRow _).declare _ _ _ _ _).completes hcheck hafter).enlist _ _ _
  operation _ _ _ _ hbefore _ hfin h :=
    ((((hbefore h).addRow _).finished hfin).declare _ _ _ _ _).enlist _ _ _
  aliased := fun {check node s s₁ s₂ t parts key} hcheck _ _ hkey hvalue h => by
    have hopened : Accounted env origin (s₁.openAlias (node, key)) := { hkey h with }
    have hvalued := hcheck.related hvalue hopened
    have hclosed : Accounted env origin (s₂.leaveAlias (node, key)) := { hvalued with }
    dsimp only [State.closeAlias]
    split
    · exact hclosed
    · exact hclosed.declare _ _ _ _ _
  contents := fun {check node s s₁ s₂ s' t parts decorators} hcheck _ _ _ hbefore hdec hvisits
      h => by
    have hmarked : Accounted env origin (s.visiting node) := { h with }
    exact accounted_stepwise.ofVisits hcheck hvisits
      (((hbefore hmarked).modifyTypes _).decorated hdec)

/-! ### Sessions -/

/-- An internal error is one of a namespace statement without a symbol. -/
theorem Prepared.exists_unbound {bound : Bindings} (h : Prepared env bound s)
    (hcause : Warranted env s cause) : ∃ node parts,
      env.tree.kind? node = some (.namespaceStatement parts) ∧ bound.symbolOf? node = none ∧
        cause = .untypedNamespace parts.name := by
  cases hcause with
  | @undeclared id symbol hsym hnot hnone =>
    have hprof := profile?_of_symbol? hsym
    have hempty : symbol.declarations = [] := by
      cases hkind : symbol.kind <;>
        simp_all [node?, isDecorator, decoratorPath?]
    obtain ⟨path, hpath⟩ := h.blank.consistent.undeclared (hempty ▸ hprof)
    simp [isDecorator, decoratorPath?, hpath] at hnot
  | @untyped node parts hkind hnone =>
    refine ⟨node, parts, hkind, eq_none_iff_forall_ne_some.mpr fun symbol hsym => ?_, rfl⟩
    obtain ⟨t, ht⟩ := h.typed hkind symbol hsym
    rw [symbolOf?, h.blank.nodeSymbols, ← symbolOf?, hsym, bind_some,
      ht] at hnone
    simp at hnone

/-- In every state of a session internal errors are about namespace statements without symbols, and
a failure that is an internal error is one of them. -/
theorem Reached.internalErrors (h : Reached program s) :
    (∀ cause ∈ s.errors, ∃ node parts,
      program.tree.kind? node = some (.namespaceStatement parts) ∧
        program.bindings.symbolOf? node = none ∧ cause = .untypedNamespace parts.name) ∧
      ∀ cause, s.failure = some (.internal cause) → cause ∈ s.errors := by
  have hc : program.environment.tree.Complete := h.complete
  obtain ⟨paths, rfl | ⟨origin, hprep, hchk⟩⟩ := h.prepares
  · simp [State.initial]
  · have hprepd := declaring_prepared hc hprep
    have horigin : Accounted program.environment origin origin :=
      ⟨rfl, fun _ => rfl, by simp [hprepd.errors], by simp [hprepd.failure]⟩
    have haccounted : Accounted program.environment origin s :=
      (accounted_evolution hc.toWellFormed).checked hc.toWellFormed hchk horigin
    refine ⟨fun cause hcause => ?_, fun cause hcause => haccounted.failure hcause⟩
    obtain ⟨node, parts, hkind, hnone, rfl⟩ := hprepd.exists_unbound (haccounted.errors hcause)
    exact ⟨node, parts, hkind, (symbolOf?_declaring _ _ _ node).trans hnone, rfl⟩

/-- If a namespace statement is misplaced, then so is one in a namespace that is visited, and its
check fails. -/
theorem Exhausted.isSome_failure (h : Exhausted program s)
    (hmis : program.tree.Misplaced outer inner) : s.failure.isSome = true := by
  have hc := h.reached.complete
  obtain ⟨_, hkind, -⟩ := hmis.blockless
  obtain ⟨outer, inner, hmis, id, hid⟩ : ∃ outer inner, program.tree.Misplaced outer inner ∧
      ∃ id, program.bindings.symbolOf? outer = some id := by
    rcases program.symbolOf?_or_misplaced hc hkind with hbound | hother
    · exact ⟨outer, inner, hmis, hbound⟩
    · exact hother
  obtain ⟨parts, houter, -⟩ := hmis.blockless
  obtain ⟨innerParts, hinner⟩ := hmis.isNamespace
  have hne : outer ≠ Tree.globalNamespace := by
    rintro rfl
    obtain ⟨name, hname⟩ := hc.intrinsics (hc.mem_of_parent hmis.parent)
    simp [hinner] at hname
  obtain ⟨scope, i, hsite⟩ := (program.bindings_situated hc).site_of_namespace hc hid houter hne
  obtain ⟨t, hloc⟩ := h.reached.typed h.initialized houter hid
  have hvisited := (h.remembers hsite (by simp)).visited houter hloc
  have hmem := hc.mem_statements hinner houter hmis.parent
  refine (h.reached.swept hvisited houter hmem).failed hinner ?_
  rw [h.reached.symbolOf, program.symbolOf?_of_misplaced hc hmis, bind_none]

/-- Internal errors are confined to misplaced namespaces. When the check of a program comes back
with an internal error, a namespace statement stands directly in a namespace without a block; where
there is such a statement the check comes back with an error. No namespace was to be typed before
the one around it, and no type symbol was found without a declaration. -/
theorem internal_errors_confined {depth : Nat} {answer : Option CheckError} (h : Reached program s)
    (hrun : checkProgram depth program.environment s = some (answer, s')) :
    (∀ cause, answer = some (.internal cause) → ∃ outer inner, program.tree.Misplaced outer inner) ∧
    ((∃ outer inner, program.tree.Misplaced outer inner) → answer.isSome = true) ∧
    ∀ cause ∈ s'.errors, ∃ name, cause = .untypedNamespace name := by
  obtain ⟨hexhausted, rfl⟩ := checkProgram_exhausts h hrun
  have hc := hexhausted.reached.complete
  obtain ⟨herrors, hfailure⟩ := hexhausted.reached.internalErrors
  refine ⟨fun cause hcause => ?_, fun ⟨_, _, hmisplaced⟩ => hexhausted.isSome_failure hmisplaced,
    fun cause hcause => ?_⟩
  · obtain ⟨node, parts, hkind, hnone, -⟩ := herrors cause (hfailure cause hcause)
    rcases program.symbolOf?_or_misplaced hc hkind with ⟨id, hid⟩ | ⟨outer, inner, hmisplaced, -⟩
    · simp [hnone] at hid
    · exact ⟨outer, inner, hmisplaced⟩
  · obtain ⟨_, parts, -, -, rfl⟩ := herrors cause hcause
    exact ⟨parts.name, rfl⟩

/-- The rest of a file belongs to the namespace `Harbor`, in which the namespace `Pier` stands as if
there were a block. -/
def harbors : Program :=
  .ofFiles .default .empty [⟨"sea", [
    .namespaceDecl "Harbor" true [.namespaceDecl "Pier" false [] []] [],
    .model "Boat" []]⟩]

/-- The check of the harbors fails for the pier, and it can only do so because a namespace statement
is misplaced. -/
theorem internal_errors_confined_harbors :
    ∃ answer s, harbors.run 10 = some (answer, s) ∧ s.errors = [.untypedNamespace "Pier"] ∧
      (∃ outer inner, harbors.tree.Misplaced outer inner) ∧ answer.isSome = true := by
  obtain ⟨answer, s, hrun, herrors, hfailure⟩ := @exists_run harbors 10
    (fun s => s.errors = [.untypedNamespace "Pier"] ∧
      s.failure = some (.internal (.untypedNamespace "Pier"))) _ (by decide +kernel)
  have hinitial : Reached harbors (.initial harbors.bindings) := .initial _ _ _
  have hanswer := (checkProgram_exhausts hinitial hrun).2
  obtain ⟨hinternal, hfails, -⟩ := internal_errors_confined hinitial hrun
  have hmisplaced := hinternal _ (hanswer.trans hfailure)
  exact ⟨answer, s, hrun, herrors, hmisplaced, hfails hmisplaced⟩

end Checking

end ApiSchema
