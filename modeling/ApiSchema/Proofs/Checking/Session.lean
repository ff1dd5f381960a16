import ApiSchema.Proofs.Binding.Merging
import ApiSchema.Proofs.Binding.Steps
import ApiSchema.Proofs.Checking.Evaluation
import ApiSchema.Proofs.Checking.Preparation

/-!
# Sessions

A session with the checker is any sequence of calls, each of which answers a request to check the
program, a file or a node, with checks nested as deeply as it takes. The first call merges the
files; after that there are no types yet but the error type and the namespaces. Every property that
holds then and is kept by the checks of nodes holds in all states that a session comes to. The
decorators that are declared need not be those that are registered.
-/

namespace ApiSchema

open Relation Table Option TypeTable

variable {b : Bindings} {program : Program} {depth : Nat} {u : Unit} {P : State → Prop}

/-- The program that is made of the given files. -/
def Program.ofFiles (options : Options) (registry : Registry) (files : List SourceFile) :
    Program :=
  ⟨options, [], Tree.ofFiles files, registry⟩

/-- A required property without decorators. -/
def Member.required (name type : String) : Member :=
  .property name false (.reference type []) none []

/-- A model without parameters, bases and decorators. -/
def Statement.model (name : String) (members : List Member) : Statement :=
  .modelDecl name [] none none members []

namespace Checking

variable {env : Environment} {bound : Bindings} {merged : Bool} {s s' s₁ : State} {n : NodeId}

/-! ### Before the first check -/

/-- Nothing has been checked: there are only the error type and namespaces, and nothing is known but
the types of namespaces. Whether the files have been merged is told apart; nodes have the symbols
and namespaces that they were bound to. -/
structure Blank (env : Environment) (bound : Bindings) (merged : Bool) (s : State) : Prop where
  initialized : s.initialized = merged
  context : s.context = none
  pending : s.pending = .empty
  building : s.building = []
  openAliases : s.openAliases = []
  checkedNamespaces : s.checkedNamespaces = []
  parameterTypes : s.parameterTypes = .empty
  literalTypes : s.literalTypes = .empty
  references : s.references = []
  readings : s.readings = []
  attempts : s.attempts = []
  finished : s.finished = []
  consistent : Bindings.Consistent env.tree s.bindings
  nodeSymbols : s.bindings.nodeSymbols = bound.nodeSymbols
  namespaceSymbols : s.bindings.namespaceSymbols = bound.namespaceSymbols
  error : s.types.get? errorType = some ⟨none, .intrinsic errorName⟩
  rows {id : TypeId} {row : TypeRecord} : s.types.get? id = some row →
    id = errorType ∨ row.shape.isNamespace = true
  declaredType (symbol : SymbolId) : (s.linksOf symbol).declaredType = none
  instances (symbol : SymbolId) : (s.linksOf symbol).instances = .empty
  namespaceType {symbol : SymbolId} {t : TypeId} : (s.linksOf symbol).namespaceType = some t →
    ∃ n, s.types.shape? t = some (.namespaceType n)

namespace Blank

/-- The types that there are refer to nothing and are not made for template arguments. -/
theorem shape (h : Blank env bound merged s) {id : TypeId} {shape : TypeShape}
    (hshape : s.types.shape? id = some shape) :
    shape = .intrinsic errorName ∨ ∃ n, shape = .namespaceType n := by
  obtain ⟨row, hrow, rfl⟩ := map_eq_some_iff.mp hshape
  rcases h.rows hrow with rfl | hns
  · rw [h.error, some.injEq] at hrow
    exact .inl (hrow ▸ rfl)
  · cases hrowShape : row.shape <;> simp_all

theorem initial (h : Bindings.Consistent env.tree b) :
    Blank env b false (State.initial b) := by
  have hlinks : ∀ symbol, (State.initial b).linksOf symbol =
      if symbol = Bindings.globalSymbol then ⟨none, some globalType, .empty⟩ else .unknown := by
    intro symbol
    rw [State.linksOf, State.initial, OrderedMap.find?_insert]
    split <;> rfl
  refine ⟨rfl, rfl, rfl, rfl, rfl, rfl, rfl, rfl, rfl, rfl, rfl, rfl, h, rfl, rfl, rfl,
    fun {id row} hrow => ?_, fun symbol => ?_, fun symbol => ?_, fun {symbol t} ht => ?_⟩
  · rcases get?_push_cases (t := TypeTable.initial) hrow with ⟨-, rfl⟩ | hrow
    · exact .inr rfl
    · rcases get?_push_cases (t := .empty) hrow with ⟨heq, -⟩ | hrow
      · exact .inl heq
      · simp [get?, empty] at hrow
  · rw [hlinks]
    split <;> rfl
  · rw [hlinks]
    split <;> rfl
  · rw [hlinks] at ht
    split at ht
    · cases ht
      exact ⟨_, rfl⟩
    · simp [Links.unknown] at ht

section

variable (h : Blank env bound merged s)

include h

theorem imports (hstep : Imports s s') :
    Blank env bound merged s' := by
  cases hstep with
  | quiet hquiet =>
    rw [hquiet.eq]
    exact { h with }
  | names owner _ hexp =>
    refine { h with consistent := ?_ }
    simp only [State.withImports]
    refine h.consistent.modifyLocals fun table name found hfound => ?_
    rcases SymbolTable.find?_foldl_set hfound with ⟨entry, hentry, rfl⟩ | hold
    · exact .inr (.inl (h.consistent.exports hexp
        (SymbolTable.find?_of_mem_entries hentry)))
    · exact .inl hold

theorem addNamespace (node : Option NodeId) (n : NamespaceType) :
    Blank env bound merged (s.addRow ⟨node, .namespaceType n⟩) := by
  have hgrows : s.types.Grows (s.addRow ⟨node, .namespaceType n⟩).types := .push _ _
  refine { h with
    error := (get?_push_of_has ⟨_, h.error⟩).trans h.error
    rows := fun {id row} hrow => ?_
    namespaceType := fun {symbol t} ht => ?_ }
  · rcases get?_push_cases (t := s.types) hrow with ⟨-, rfl⟩ | hold
    · exact .inr rfl
    · exact h.rows hold
  · obtain ⟨contents, hcontents⟩ := h.namespaceType ht
    exact hgrows.namespaceType hcontents

theorem locateNamespace (symbol : SymbolId) {t : TypeId} {n : NamespaceType}
    (ht : s.types.shape? t = some (.namespaceType n)) :
    Blank env bound merged (s.modifyLinks symbol fun links => { links with namespaceType := t }) := by
  have hlinks := fun other =>
    linksOf_modifyLinks s symbol other fun links => { links with namespaceType := some t }
  refine { h with
    declaredType := fun other => ?_, instances := fun other => ?_
    namespaceType := fun {other u} hu => ?_ }
  · rw [hlinks]
    split
    · exact h.declaredType symbol
    · exact h.declaredType other
  · rw [hlinks]
    split
    · exact h.instances symbol
    · exact h.instances other
  · rw [hlinks] at hu
    split at hu
    · cases hu
      exact ⟨n, ht⟩
    · exact h.namespaceType hu

theorem filled (hfilled : Filled s s') :
    Blank env bound merged s' := by
  obtain rfl | ⟨id, f, hf, rfl⟩ := hfilled
  · exact h
  · have hframe : Frame none s (s.modifyTypes fun types => types.modifyNamespace id f) :=
      .modifyNamespace id hf
    refine { h with
      error := hframe.kept h.error (by simp) rfl
      rows := fun {other row} hrow => ?_
      namespaceType := fun {symbol t} ht => ?_ }
    · replace hrow := (get?_modifyShape _ _ _).symm.trans hrow
      split at hrow
      · obtain ⟨old, hold, rfl⟩ := map_eq_some_iff.mp hrow
        refine (h.rows hold).imp_right fun hns => ?_
        obtain ⟨node, shape⟩ := old
        cases shape <;> simp_all
      · exact h.rows hrow
    · obtain ⟨contents, hcontents⟩ := h.namespaceType ht
      exact hframe.grows.namespaceType hcontents

theorem createNamespaceType {node : NodeId} {name : String}
    (hrun : createNamespaceType node name env s = some (u, s')) : Blank env bound merged s' := by
  rcases createNamespaceType_cases hrun with ⟨rfl, -⟩ | ⟨rfl, -⟩ | ⟨symbol, parent, -, -, -, rfl⟩
  · exact h
  · exact { h with }
  · exact ((h.addNamespace _ _).locateNamespace _ (shape?_push_nextId _)).filled
      (.inr ⟨_, _, fun n => .addNamespace n name s.types.nextId, rfl⟩)

theorem merge {s₁ : State}
    (himps : ReflTransGen Imports
      (State.mergeFiles { s with initialized := true } env.tree.files) s₁) :
    Blank env bound true s₁ := by
  have h₀ : Blank env bound true { s with initialized := true } := { h with initialized := rfl }
  induction himps with
  | refl =>
    have hcons := (State.mergeFiles_merged env.tree.files h₀.consistent).consistent
    rw [State.mergeFiles_enters] at hcons ⊢
    exact { h₀ with consistent := hcons }
  | tail _ hstep ih => exact ih.imports hstep

end

/-- Merging the files leaves a state in which nothing has been checked. -/
theorem prepare (hwf : env.tree.WellFormed) (h : Blank env bound merged s)
    (hrun : prepare env s = some (u, s')) : Blank env bound true s' := by
  rcases prepare_cases hwf hrun with ⟨htrue, rfl⟩ | ⟨-, s₁, himps, htypes⟩
  · exact { h with initialized := htrue }
  · exact forM_preserves (h.merge himps) (fun h hrun => h.createNamespaceType hrun) htypes

end Blank

/-! ### States of a session -/

/-- A program is prepared once. -/
theorem prepare_eq_self (h : s.initialized = true) : prepare env s = some ((), s) := by
  simp only [prepare, get_bind, h, if_true]
  rfl

/-- Preparing again changes nothing. -/
theorem prepare_of_initialized (h : s.initialized = true) (hrun : prepare env s = some (u, s')) :
    s' = s :=
  (Prod.mk.inj (mem_unique hrun (prepare_eq_self h))).2

/-- What can be asked of the checker. -/
inductive Request where
  | program
  | file (id : NodeId)
  | node (id : NodeId)
  deriving DecidableEq

/-- Carries out a request, with checks nested at most `depth` deep. Only a request for a node is
answered with a type. -/
def Request.perform (depth : Nat) : Request → CheckM (Option TypeId)
  | .program => do
    discard <| checkProgram depth
    return none
  | .file id => do
    checkFile depth id
    return none
  | .node id => return some (← typeOfNode depth id)

/-- A call of the checker: a request is answered. -/
def Call (program : Program) (s s' : State) : Prop :=
  ∃ depth request answer, Request.perform depth request program.environment s = some (answer, s')

/-- A check of the whole program is a call. -/
theorem Call.of_check {answer : Option CheckError}
    (h : checkProgram depth program.environment s = some (answer, s')) : Call program s s' :=
  ⟨depth, .program, none, run_bind.mpr ⟨(), s', run_discard.mpr ⟨answer, h⟩, rfl⟩⟩

/-- The states that a session with the checker can come to, for a program that is made of files and
whatever decorators have been declared. -/
structure Reached (program : Program) (s : State) : Prop where
  files : ∃ files, program.tree = Tree.ofFiles files
  calls : ∃ paths, ReflTransGen (Call program) (.initial (.declaring program.tree paths)) s

/-- The tree of a session is complete. -/
theorem Reached.complete (h : Reached program s) : program.tree.Complete := by
  obtain ⟨files, hfiles⟩ := h.files
  exact hfiles ▸ Tree.ofFiles_complete files

/-- The tree of a session is well formed. -/
theorem Reached.wellFormed (h : Reached program s) : program.environment.tree.WellFormed :=
  h.complete.toWellFormed

/-- A session begins with no call. -/
theorem Reached.initial (options : Options) (registry : Registry) (files : List SourceFile) :
    Reached (Program.ofFiles options registry files)
      (State.initial (Program.ofFiles options registry files).bindings) :=
  ⟨⟨files, rfl⟩, registry.paths, .refl⟩

/-- Checking a program is a session. -/
theorem Reached.of_run {options : Options} {registry : Registry} {files : List SourceFile}
    {answer : Option CheckError}
    (hrun : (Program.ofFiles options registry files).run depth = some (answer, s)) :
    Reached (Program.ofFiles options registry files) s :=
  ⟨⟨files, rfl⟩, registry.paths, .single (.of_check hrun)⟩

/-- A session goes on with further calls. -/
theorem Reached.calls_trans (h : Reached program s)
    (hcalls : ReflTransGen (Call program) s s') : Reached program s' :=
  ⟨h.files, h.calls.imp fun _ hbefore => hbefore.trans hcalls⟩

/-- A run of the checker can be evaluated. -/
theorem exists_run [DecidablePred P]
    (h : (program.run depth).any (fun outcome => P outcome.2) = true) :
    ∃ answer s, program.run depth = some (answer, s) ∧ P s := by
  obtain ⟨⟨answer, s⟩, hrun, hP⟩ := (any_eq_true _ _).mp h
  exact ⟨answer, s, hrun, of_decide_eq_true hP⟩

/-- Nodes have been checked one after the other. -/
def Checked (env : Environment) : State → State → Prop :=
  ReflTransGen fun s s' => ∃ depth node t, checkNode depth node env s = some (t, s')

theorem Checked.preserves (h : Checked env s s') (hs : P s)
    (hcheck : ∀ {node t s s'} depth, P s → checkNode depth node env s = some (t, s') → P s') :
    P s' := by
  induction h with
  | refl => exact hs
  | tail _ hlast ih =>
    obtain ⟨depth, node, t, hrun⟩ := hlast
    exact hcheck depth ih hrun

theorem Checked.frame (hwf : env.tree.WellFormed) (h : Checked env s s') : Frame none s s' :=
  h.preserves (.refl _ _) fun depth hbefore hrun =>
    hbefore.trans ((checkNode_framed hwf depth).frame hrun)

theorem forM_checked {α : Type} (hwf : env.tree.WellFormed) {f : α → CheckM PUnit}
    (hf : ∀ x {s s' : State} {u : PUnit}, s.initialized = true → f x env s = some (u, s') →
      Checked env s s') {xs : List α} {u : PUnit} (hs : s.initialized = true)
    (hrun : xs.forM f env s = some (u, s')) : Checked env s s' := by
  induction xs generalizing s with
  | nil => exact run_forM_nil.mp hrun ▸ .refl
  | cons x xs ih =>
    obtain ⟨s₁, hx, hrest⟩ := run_forM_cons.mp hrun
    have hfirst := hf x hs hx
    exact hfirst.trans (ih ((hfirst.frame hwf).initialized.trans hs) hrest)

theorem checkFile_checked (hwf : env.tree.WellFormed) {file : NodeId}
    (hrun : checkFile depth file env s = some (u, s')) :
    ∃ s₁, prepare env s = some ((), s₁) ∧ (s₁.initialized = true → Checked env s₁ s') := by
  obtain ⟨_, s₁, hprep, hrun⟩ := run_bind.mp hrun
  refine ⟨s₁, hprep, fun hs => ?_⟩
  simp only [getTree_bind] at hrun
  replace hrun := run_chosen hrun
  split at hrun
  · refine forM_checked hwf (fun n _ _ _ _ hn => ?_) hs hrun
    obtain ⟨t, hn⟩ := run_discard.mp hn
    exact .single ⟨depth, n, t, hn⟩
  · exact (run_pure.mp hrun).2 ▸ .refl

/-- A call merges the files, unless that has been done, and then checks nodes. -/
theorem Call.checked (hwf : program.tree.WellFormed) (h : Call program s s') :
    ∃ s₁, prepare program.environment s = some ((), s₁) ∧
      (s₁.initialized = true → Checked program.environment s₁ s') := by
  obtain ⟨depth, request, answer, h⟩ := h
  cases request with
  | program =>
    obtain ⟨_, hrun, -⟩ := run_bind_pure.mp h
    obtain ⟨_, hrun⟩ := run_discard.mp hrun
    obtain ⟨_, s₁, hprep, hrun⟩ := run_bind.mp hrun
    simp only [getTree_bind] at hrun
    obtain ⟨_, s₂, hfiles, hanswer⟩ := run_bind.mp hrun
    simp only [get_bind, run_pure] at hanswer
    obtain ⟨-, rfl⟩ := hanswer
    refine ⟨s₁, hprep, fun hs => forM_checked hwf (fun _ s s' _ hs hrun => ?_) hs hfiles⟩
    obtain ⟨s₃, hprep, hchk⟩ := checkFile_checked hwf hrun
    obtain rfl := prepare_of_initialized hs hprep
    exact hchk hs
  | file id =>
    obtain ⟨_, hrun, -⟩ := run_bind_pure.mp h
    exact checkFile_checked hwf hrun
  | node id =>
    obtain ⟨t, hrun, -⟩ := run_bind_pure.mp h
    obtain ⟨_, s₁, hprep, hrun⟩ := run_bind.mp hrun
    exact ⟨s₁, hprep, fun _ => .single ⟨_, _, _, hrun⟩⟩

/-- Before the first call nothing has been checked. -/
theorem Reached.blank (h : Reached program s) (paths : List String) :
    Blank program.environment (.declaring program.tree paths) false
      (.initial (.declaring program.tree paths)) :=
  .initial (Bindings.declaring_consistent h.complete paths)

/-- After calls of the checker no call has been made, or the files have been merged and some nodes
have been checked. -/
theorem prepares_of_calls (hwf : program.tree.WellFormed)
    (hblank : Blank program.environment bound false (State.initial bound))
    (hcalls : ReflTransGen (Call program) (State.initial bound) s) :
    s = State.initial bound ∨
      ∃ s₁, prepare program.environment (State.initial bound) = some ((), s₁) ∧
        Checked program.environment s₁ s := by
  induction hcalls with
  | refl => exact .inl rfl
  | tail _ hcall ih =>
    obtain ⟨s₂, hprep, hchk⟩ := hcall.checked hwf
    rcases ih with rfl | ⟨s₁, hs₁, hold⟩
    · exact .inr ⟨s₂, hprep, hchk (hblank.prepare hwf hprep).initialized⟩
    · have hinit := (hold.frame hwf).initialized.trans (hblank.prepare hwf hs₁).initialized
      obtain rfl := prepare_of_initialized hinit hprep
      exact .inr ⟨s₁, hs₁, hold.trans (hchk hinit)⟩

/-- In a session no call has been made, or the files have been merged and some nodes have been
checked. -/
theorem Reached.prepares (h : Reached program s) :
    ∃ paths, s = .initial (.declaring program.tree paths) ∨
      ∃ s₁, prepare program.environment (.initial (.declaring program.tree paths)) =
          some ((), s₁) ∧ Checked program.environment s₁ s :=
  h.calls.imp fun paths => prepares_of_calls h.wellFormed (h.blank paths)

/-- Every state of a session is one in which nothing had been checked, after some checks. -/
theorem Reached.checked (h : Reached program s) :
    ∃ paths merged s₁, Blank program.environment (.declaring program.tree paths) merged s₁ ∧
      Checked program.environment s₁ s := by
  obtain ⟨paths, rfl | ⟨s₁, hprep, hchk⟩⟩ := h.prepares
  · exact ⟨paths, false, _, h.blank paths, .refl⟩
  · exact ⟨paths, true, s₁, (h.blank paths).prepare h.wellFormed hprep, hchk⟩

/-- Nodes keep the symbols that they were bound to. -/
theorem Reached.symbolOf (h : Reached program s) (n : NodeId) :
    s.bindings.symbolOf? n = program.bindings.symbolOf? n := by
  obtain ⟨paths, merged, s₁, hblank, hchk⟩ := h.checked
  rw [(hchk.frame h.wellFormed).bindings, Bindings.symbolOf?, hblank.nodeSymbols]
  exact Bindings.symbolOf?_declaring program.tree paths _ n

/-- Once the files have been merged, calls check nodes and do nothing else. -/
theorem checked_of_calls (hwf : program.tree.WellFormed) (hinit : s.initialized = true)
    (hcalls : ReflTransGen (Call program) s s') :
    Checked program.environment s s' := by
  induction hcalls with
  | refl => exact .refl
  | tail _ hcall ih =>
    obtain ⟨s₂, hprep, hchk⟩ := hcall.checked hwf
    have hlater := (ih.frame hwf).initialized.trans hinit
    obtain rfl := prepare_of_initialized hlater hprep
    exact ih.trans (hchk hlater)

/-! ### Lists of requests -/

section

variable {requests : List Request} {answers : List (Option TypeId)} {request : Request}

/-- Carries out requests one after the other. -/
def performAll (depth : Nat) (requests : List Request) : CheckM (List (Option TypeId)) :=
  requests.mapM (Request.perform depth)

/-- The requests are answered, with checks nested deeply enough. -/
def Performs (env : Environment) (requests : List Request) (s : State)
    (answers : List (Option TypeId)) (s' : State) : Prop :=
  ∃ depth, performAll depth requests env s = some (answers, s')

/-- Requests can be evaluated. -/
theorem exists_performs {env : Environment} {s : State} {depth : Nat} {requests : List Request}
    {P : List (Option TypeId) × State → Prop} [DecidablePred P]
    (h : (performAll depth requests env s).any (fun outcome => P outcome) = true) :
    ∃ answers s', Performs env requests s answers s' ∧ P (answers, s') := by
  obtain ⟨⟨answers, s'⟩, hrun, hP⟩ := (any_eq_true _ _).mp h
  exact ⟨answers, s', ⟨depth, hrun⟩, of_decide_eq_true hP⟩

/-- Each request is answered by a call. -/
theorem Performs.calls (h : Performs program.environment requests s answers s') :
    ReflTransGen (Call program) s s' := by
  obtain ⟨depth, h⟩ := h
  rw [performAll] at h
  exact mapM_preserves .refl (fun hbefore hrun => hbefore.tail ⟨depth, _, _, hrun⟩) h

/-- Each request is carried out after some calls and before others. -/
theorem Performs.performed (h : Performs program.environment requests s answers s')
    (hmem : request ∈ requests) :
    ∃ s₁ s₂ depth answer, ReflTransGen (Call program) s s₁ ∧
      request.perform depth program.environment s₁ = some (answer, s₂) ∧
      ReflTransGen (Call program) s₂ s' := by
  obtain ⟨depth, h⟩ := h
  rw [performAll] at h
  induction requests generalizing s answers with
  | nil => simp at hmem
  | cons first rest ih =>
    obtain ⟨answer, s₁, others, hfirst, hrest, -⟩ := run_mapM_cons.mp h
    rcases List.mem_cons.mp hmem with rfl | hmem
    · exact ⟨s, s₁, depth, answer, .refl, hfirst, Performs.calls ⟨depth, hrest⟩⟩
    · obtain ⟨s₂, s₃, depth', answer', hbefore, hrun, hafter⟩ := ih hmem hrest
      exact ⟨s₂, s₃, depth', answer', .head ⟨depth, _, _, hfirst⟩ hbefore, hrun, hafter⟩

/-- Requests to files are a session. -/
theorem Performs.reached {files : List SourceFile} {paths : List String} {registry : Registry}
    {designTime : Bool} (h : Performs ⟨.ofFiles files, registry, designTime⟩ requests
      (.initial (.declaring (.ofFiles files) paths)) answers s) :
    Reached (.ofFiles { Options.default with designTime } registry files) s := by
  let program : Program := .ofFiles { Options.default with designTime } registry files
  have hcalls : ReflTransGen (Call program) _ s := Performs.calls h
  exact ⟨⟨files, rfl⟩, paths, hcalls⟩

end

end Checking

end ApiSchema
