import ApiSchema.Proofs.Checking.BasicRules
import ApiSchema.Proofs.Checking.Recording

/-!
# Preparing a program

Before the first check the files are merged, `using` statements import names, contested names are
reported and namespaces get types. This module says what each of these can do, and that preparing
always comes to an end: a reference has fewer segments than the tree has nodes.
-/

namespace ApiSchema.Checking

open Relation

variable {env : Environment} {s s' : State} {u : Unit} {statement : NodeId}

/-! ### What preparing does -/

/-- The names of a table have become local names of a node. -/
def State.withImports (s : State) (owner : NodeId) (exports : SymbolTable) : State :=
  { s with bindings := s.bindings.modifyLocals owner fun table =>
      exports.bound.entries.foldl (fun table entry => table.set entry.1 entry.2) table }

/-- A report is made, or the names of a namespace become local names of a node, as some `using`
statement demands. -/
inductive Imports (s : State) : State → Prop
  | quiet {s' : State} : Quiet s s' → Imports s s'
  | names {id : SymbolId} {exports : SymbolTable} {statement : NodeId} (owner : NodeId) :
    statement ∈ s.bindings.usings → s.mergedExports? id = some exports →
    Imports s (s.withImports owner exports)

theorem imports_usings (h : ReflTransGen Imports s s') :
    s'.bindings.usings = s.bindings.usings := by
  induction h with
  | refl => rfl
  | tail _ hstep ih =>
    cases hstep with
    | quiet hquiet => rw [hquiet.bindings, ih]
    | names => exact ih

/-- Where there are no `using` statements no names are imported. -/
theorem imports_bindings (h : ReflTransGen Imports s s') (husings : s.bindings.usings = []) :
    s'.bindings = s.bindings := by
  induction h with
  | refl => rfl
  | tail hbefore hstep ih =>
    cases hstep with
    | quiet hquiet => rw [hquiet.bindings, ih]
    | names _ hmem => simp [imports_usings hbefore, husings] at hmem

/-- A `using` statement only makes reports, or it imports the names of a namespace into the node
around it. -/
theorem checkUsing_cases (hwf : env.tree.WellFormed)
    (hrun : checkUsing statement env s = some (u, s')) :
    Quiet s s' ∨ ∃ s₁ id exports owner, Quiet s s₁ ∧ s₁.mergedExports? id = some exports ∧
      env.tree.parent? statement = some owner ∧ s' = s₁.withImports owner exports := by
  simp only [checkUsing, getTree_bind] at hrun
  replace hrun := run_chosen hrun
  split at hrun
  · obtain ⟨found, s₁, hresolve, hrun⟩ := run_bind.mp hrun
    have hquiet := (resolveReference_visible hwf hresolve).1
    replace hrun := run_chosen hrun
    split at hrun
    · exact .inl ((run_pure.mp hrun).2 ▸ hquiet)
    · simp only [Chosen, get_bind] at hrun
      replace hrun := run_chosen hrun
      split at hrun
      · exact .inl ((run_pure.mp hrun).2 ▸ hquiet)
      · split at hrun
        · exact .inl (hquiet.trans (report_quiet hrun))
        · split at hrun
          · exact .inl (hquiet.trans (report_quiet hrun))
          · simp only [Chosen, get_bind, getTree_bind] at hrun
            replace hrun := run_chosen hrun
            split at hrun
            next hexp howner =>
              exact .inr ⟨s₁, _, _, _, hquiet, hexp, howner, run_modify.mp hrun⟩
            · exact .inl ((run_pure.mp hrun).2 ▸ hquiet)
  · exact .inl ((run_pure.mp hrun).2 ▸ .refl s)

theorem checkUsing_imports (hwf : env.tree.WellFormed) (hmem : statement ∈ s.bindings.usings)
    (hrun : checkUsing statement env s = some (u, s')) : ReflTransGen Imports s s' := by
  rcases checkUsing_cases hwf hrun with hquiet | ⟨s₁, id, exports, owner, hquiet, hexp, -, rfl⟩
  · exact .single (.quiet hquiet)
  · rw [← hquiet.bindings] at hmem
    exact .tail (.single (.quiet hquiet)) (.names owner hmem hexp)

theorem checkUsings_imports (hwf : env.tree.WellFormed) {statements : List NodeId} {u : PUnit}
    (hsub : statements ⊆ s.bindings.usings)
    (hrun : statements.forM checkUsing env s = some (u, s')) :
    ReflTransGen Imports s s' := by
  induction statements generalizing s with
  | nil => exact run_forM_nil.mp hrun ▸ .refl
  | cons statement rest ih =>
    obtain ⟨s₁, hfirst, hrest⟩ := run_forM_cons.mp hrun
    have himps := checkUsing_imports hwf (hsub (.head _)) hfirst
    refine himps.trans (ih ?_ hrest)
    rw [imports_usings himps]
    exact List.subset_of_cons_subset hsub

theorem reportContestedNames_imports (hrun : reportContestedNames env s = some (u, s')) :
    ReflTransGen Imports s s' := by
  simp only [reportContestedNames, get_bind] at hrun
  refine forM_preserves .refl (fun hbefore hrun => ?_) hrun
  simp only [get_bind] at hrun
  replace hrun := run_chosen hrun
  split at hrun
  · exact (run_pure.mp hrun).2 ▸ hbefore
  · exact hbefore.tail (.quiet (report_quiet hrun))

/-- A namespace statement has no symbol or its namespace has a type, or there is no type for the
namespace around it, or else its namespace gets a type, which is listed around it. -/
theorem createNamespaceType_cases {node : NodeId} {name : String}
    (hrun : createNamespaceType node name env s = some (u, s')) :
    (s' = s ∧ ∀ symbol, s.bindings.symbolOf? node = some symbol →
      (s.namespaceTypeOf? symbol).isSome = true) ∨
    (s' = s.raise (.untypedParent name) ∧ (∃ symbol, s.bindings.symbolOf? node = some symbol) ∧
      s.parentNamespaceType? node = none) ∨
    ∃ symbol parent, s.bindings.symbolOf? node = some symbol ∧
      s.namespaceTypeOf? symbol = none ∧ s.parentNamespaceType? node = some parent ∧
      s' = ((s.addRow ⟨some node, .namespaceType (.make name (some parent))⟩).modifyLinks
        (s.mergedSymbol symbol) fun links =>
          { links with namespaceType := some s.types.nextId }).modifyTypes fun types =>
            types.modifyNamespace parent fun contents =>
              { contents with namespaces := contents.namespaces.insertIfNew name s.types.nextId } := by
  simp only [createNamespaceType, get_bind] at hrun
  replace hrun := run_chosen hrun
  split at hrun
  next hnone =>
    exact .inl ⟨(run_pure.mp hrun).2, fun symbol hsym => by simp [hnone] at hsym⟩
  next symbol hsym =>
    simp only [Chosen, get_bind] at hrun
    split at hrun
    next hknown =>
      refine .inl ⟨(run_pure.mp hrun).2, fun other hother => ?_⟩
      obtain rfl := Option.mem_unique hsym hother
      exact hknown
    next hunknown =>
      simp only [get_bind] at hrun
      replace hrun := run_chosen hrun
      split at hrun
      next hpar =>
        obtain ⟨_, herror⟩ := run_discard.mp hrun
        exact .inr (.inl ⟨(run_internalError.mp herror).2, ⟨symbol, hsym⟩, hpar⟩)
      next parent hpar =>
        simp only [Chosen, addType_bind, get_bind, modify_bind] at hrun
        exact .inr (.inr ⟨symbol, parent, hsym, by simpa using hunknown, hpar, run_modify.mp hrun⟩)

/-- Preparing merges the files, carries out `using` statements, reports contested names, and then
gives types to namespaces, unless all this was done before. -/
theorem prepare_stages (hrun : prepare env s = some (u, s')) :
    (s.initialized = true ∧ s' = s) ∨ s.initialized = false ∧ ∃ s₁ s₂,
      (State.mergeFiles { s with initialized := true } env.tree.files).bindings.usings.forM checkUsing
        env (State.mergeFiles { s with initialized := true } env.tree.files) = some ((), s₁) ∧
      reportContestedNames env s₁ = some ((), s₂) ∧
      (namespaceStatements env.tree).forM
        (fun entry => createNamespaceType entry.1 entry.2) env s₂ = some ((), s') := by
  simp only [prepare, get_bind] at hrun
  split at hrun
  next htrue =>
    exact .inl ⟨htrue, (run_pure.mp hrun).2⟩
  next hfalse =>
    simp only [getTree_bind, modify_bind, get_bind] at hrun
    obtain ⟨_, s₁, husings, hrun⟩ := run_bind.mp hrun
    obtain ⟨_, s₂, hcont, hrun⟩ := run_bind.mp hrun
    simp only [createNamespaceTypes, getTree_bind] at hrun
    exact .inr ⟨by simpa using hfalse, s₁, s₂, husings, hcont, hrun⟩

/-- Between merging and giving types, names are imported. -/
theorem prepare_cases (hwf : env.tree.WellFormed) (hrun : prepare env s = some (u, s')) :
    (s.initialized = true ∧ s' = s) ∨ s.initialized = false ∧
      ∃ s₁, ReflTransGen Imports
          (State.mergeFiles { s with initialized := true } env.tree.files) s₁ ∧
        (namespaceStatements env.tree).forM
          (fun entry => createNamespaceType entry.1 entry.2) env s₁ = some ((), s') := by
  rcases prepare_stages hrun with hdone | ⟨hfalse, s₁, s₂, husings, hcont, hrun⟩
  · exact .inl hdone
  · refine .inr ⟨hfalse, s₂, .trans ?_ (reportContestedNames_imports hcont), hrun⟩
    exact checkUsings_imports hwf (List.Subset.refl _) husings

/-! ### Preparing comes to an end -/

/-- The computation has an answer in every state. -/
def Ends {α : Type} (env : Environment) (x : CheckM α) : Prop := ∀ s, ∃ a s', x env s = some (a, s')

namespace Ends

variable {α β : Type}

theorem pure (a : α) : Ends env (Pure.pure a : CheckM α) := fun s => ⟨a, s, rfl⟩

theorem modify (f : State → State) : Ends env (modify f : CheckM PUnit) := fun s => ⟨⟨⟩, f s, rfl⟩

theorem bind {x : CheckM α} {f : α → CheckM β} (hx : Ends env x) (hf : ∀ a, Ends env (f a)) :
    Ends env (x >>= f) := fun s => by
  obtain ⟨a, s₁, ha⟩ := hx s
  obtain ⟨b, s₂, hb⟩ := hf a s₁
  exact ⟨b, s₂, run_bind.mpr ⟨a, s₁, ha, hb⟩⟩

theorem get_bind {f : State → CheckM β} (hf : ∀ s, Ends env (f s)) : Ends env (get >>= f) :=
  fun s => hf s s

theorem getTree_bind {f : Tree → CheckM β} (hf : Ends env (f env.tree)) :
    Ends env (getTree >>= f) := hf

end Ends

theorem report_ends (message : Message) (arguments : List String) (node : Option NodeId) :
    Ends env (report message arguments node) :=
  .getTree_bind (.modify _)

/-- Everything that is done before the first check comes to an end. -/
def Ends.rules (hwf : env.tree.WellFormed) : PreparationRules env.tree where
  holds m _ := Ends env m
  pure := .pure
  bind := .bind
  look _ _ hf := .get_bind hf
  getTree_bind := .getTree_bind
  report _ _ _ := report_ends _ _ _
  deep := Or.inr hwf
  mergeFiles _ := .modify _
  importNames _ _ := .modify _
  internalError _ _ := ⟨_, _, rfl⟩
  addNamespace _ _ _ := ⟨_, _, rfl⟩
  link _ _ := .modify _
  enlist _ _ _ := .modify _

theorem resolveReference_ends (hwf : env.tree.WellFormed) (node : NodeId) (kind : ReferenceKind) :
    Ends env (resolveReference node kind) :=
  (Ends.rules hwf).resolveReference (fun _ _ => trivial) (.inr hwf) node kind

/-- Preparing always comes to an end. -/
theorem prepare_ends (hwf : env.tree.WellFormed) : Ends env prepare := (Ends.rules hwf).prepare

end ApiSchema.Checking
