import ApiSchema.Proofs.Checking.Coverage
import ApiSchema.Proofs.Checking.NamespaceTypes

/-!
# Checking again

Once the program has been checked everything that the files declare is remembered, and asking for it
again changes nothing.
-/

namespace ApiSchema.Checking

open Bindings Tree Option

variable {program : Program} {s s' : State} {n file : NodeId} {parts : NamespaceNode}
  {kind : NodeKind} {scope : BindingScope} {i : Symbol.Identity} {id symbol : SymbolId}
  {depth : Nat} {env : Environment}

/-! ### Between calls -/

theorem Blank.not_busy {bound : Bindings} {merged : Bool} (h : Blank env bound merged s)
    (d : NodeId) : ¬ s.Busy d := by
  rintro ((⟨key, t, hpend⟩ | ⟨key, hmem⟩) | hctx)
  · simp [h.pending] at hpend
  · simp [h.openAliases] at hmem
  · simp [State.isInstantiating, h.context] at hctx

section

variable (h : Reached program s)

include h

/-- Between the calls of a session nothing is under construction. -/
theorem Reached.not_busy (d : NodeId) : ¬ s.Busy d := by
  obtain ⟨_, merged, s₁, hblank, hchk⟩ := h.checked
  rw [(hchk.frame h.wellFormed).toRetains.busy]
  exact hblank.not_busy d

/-- Once a call has merged the files nothing is under construction either. -/
theorem Reached.prepare_idle {u : Unit} (hprep : prepare program.environment s = some (u, s')) :
    s'.initialized = true ∧ ∀ d, ¬ s'.Busy d := by
  have hwf := h.wellFormed
  obtain ⟨paths, rfl | ⟨s₁, hprep₁, hchk⟩⟩ := h.prepares
  · have hblank := (h.blank paths).prepare hwf hprep
    exact ⟨hblank.initialized, hblank.not_busy⟩
  · have hinit := (hchk.frame hwf).initialized.trans
      ((h.blank paths).prepare hwf hprep₁).initialized
    obtain rfl := prepare_of_initialized hinit hprep
    exact ⟨hinit, h.not_busy⟩

/-- Everything in a session is covered by what was there before the first check. -/
theorem Reached.covers : ∃ bound merged s₁,
    Blank program.environment bound merged s₁ ∧ Covers program.environment s₁ s := by
  obtain ⟨_, merged, s₁, hblank, hchk⟩ := h.checked
  have hwf := h.wellFormed
  exact ⟨_, merged, s₁, hblank, (covers_evolution hwf).checked hwf hchk⟩

/-- Everything in a namespace that has been visited is remembered. -/
theorem Reached.swept {statement : NodeId} (hn : n ∈ s.checkedNamespaces)
    (hkind : program.tree.kind? n = some (.namespaceStatement parts))
    (hmem : statement ∈ parts.statements) : s.Remembers program.tree statement := by
  obtain ⟨_, merged, s₁, hblank, hcovers⟩ := h.covers
  refine (hcovers.swept hblank.consistent hn (by simp [hblank.checkedNamespaces]) hkind
    hmem).resolve_right fun hbusy => h.not_busy statement ?_
  exact (hcovers.busy _).mpr hbusy

theorem Reached.furnished : s.Furnished program.tree := by
  obtain ⟨_, merged, s₁, hblank, hcovers⟩ := h.covers
  refine hcovers.furnished hblank.consistent fun {d symbol t} _ hknown => ?_
  exact absurd (hblank.declaredType symbol) (by rw [← State.declaredType?, hknown]; simp)

end

/-! ### What is remembered is not checked again -/

section

variable {env : Environment} {check : Check} {node : NodeId} {t : TypeId}

/-- Outside its instances a declaration whose type is known has that type. -/
theorem checkStep_of_declared (hkind : env.tree.kind? node = some kind)
    (hremembered : env.tree.isRemembered node = true)
    (hnot : kind.symbolKind? ≠ some .namespaceKind) (hopen : s.isInstantiating node = false)
    (hknown : s.declaredTypeOfNode? node = some t) : checkStep check node env s = some (t, s) := by
  have hset : s.settledType? node = some t := by
    rw [State.settledType?, hopen]
    exact hknown
  rw [isRemembered, isListed, hkind] at hremembered
  simp only [checkStep, getTree_bind, hkind]
  cases kind with
  | modelStatement parts =>
    simp only [checkModel, construct, get_bind, hset]
    rfl
  | interfaceStatement parts =>
    simp only [checkInterface, construct, get_bind, hset]
    rfl
  | aliasStatement parts =>
    simp only [checkAlias, get_bind, hset]
    rfl
  | enumStatement parts =>
    simp only [checkEnum, get_bind, hknown]
    rfl
  | operationStatement parts =>
    have hmember : env.tree.isMember node = false := by
      simp only [Bool.and_eq_true, Bool.not_eq_true'] at hremembered
      exact hremembered.2
    simp only [checkOperationNode, getTree_bind]
    refine Eq.trans (congrFun (congrFun (g := checkOperation check node parts none) ?_ env) s) ?_
    · rw [isMember] at hmember
      split
      · simp_all
      · rfl
    · simp only [checkOperation, isSome_none, Bool.false_eq_true, if_false, get_bind, hknown]
      rfl
  | namespaceStatement parts => simp at hnot
  | _ => simp at hremembered

/-- A namespace that has been visited has its type. -/
theorem checkStep_of_visited (hkind : env.tree.kind? node = some (.namespaceStatement parts))
    (htyped : (s.bindings.symbolOf? node).bind s.namespaceTypeOf? = some t)
    (hvisited : node ∈ s.checkedNamespaces) : checkStep check node env s = some (t, s) := by
  simp only [checkStep, getTree_bind, hkind, checkNamespace, get_bind, htyped, hvisited, if_true]
  rfl

/-- Outside the instances of a template its parameters have the types they were given. -/
theorem checkStep_of_parameter (hwf : env.tree.WellFormed) {declaration : NodeId} {name : String}
    (hkind : env.tree.kind? node = some (.templateParameterDeclaration name))
    (hmem : node ∈ env.tree.templateParameters declaration)
    (hopen : s.isInstantiating declaration = false)
    (hfound : s.parameterTypes.find? node = some t) : checkStep check node env s = some (t, s) := by
  simp only [checkStep, getTree_bind, hkind, checkTemplateParameter, get_bind,
    templateArgument?_eq_none hwf hmem hopen, hfound]
  rfl

end

/-- A loop over computations that change nothing changes nothing. -/
theorem forM_eq_self {α : Type} {f : α → CheckM PUnit} {xs : List α}
    (h : ∀ x ∈ xs, f x env s = some (⟨⟩, s)) : xs.forM f env s = some (⟨⟩, s) := by
  induction xs with
  | nil => exact run_forM_nil.mpr rfl
  | cons x xs ih =>
    exact run_forM_cons.mpr ⟨s, h x (.head _), ih fun y hy => h y (.tail _ hy)⟩

/-! ### Everything that the files declare -/

/-- What stands in a file or in a namespace of it and declares something is remembered when it is
checked. -/
theorem isRemembered_of_site {tree : Tree} {b : Bindings} (hc : tree.Complete)
    (hsite : Site tree b n scope kind i id) (hother : ∀ name, kind ≠ .intrinsicStatement name) :
    tree.isRemembered n = true := by
  obtain ⟨m, outer, hm, houter, hscope⟩ := hsite.scopes.exists_parent hc
  have hsymKind := hsite.symbolKind
  cases kind with
  | operationStatement parts =>
    have hmember : tree.isMember n = false := by
      rw [isMember, hm, bind_some, houter]
      cases outer <;> simp_all
    have htempl : tree.templateDeclarationOf? n = none := by
      rw [hc.templateDeclarationOf_parent hm
        (by simp [templateParameters, hsite.kind])]
      exact hc.templateDeclarationOf_scope houter hscope
    simp [isRemembered, isListed, hsite.kind, hmember, htempl]
  | templateParameterDeclaration name =>
    have hmem := (hc.parameter_iff hm hsite.kind).mp rfl
    simp [templateParameters, houter, NodeKind.templateParameters_of_isScope hscope] at hmem
  | intrinsicStatement name => exact absurd rfl (hother name)
  | modelStatement | namespaceStatement | interfaceStatement | enumStatement | aliasStatement =>
    simp [isRemembered, isListed, hsite.kind]
  | _ => simp at hsymKind

/-- All statements of the files have been checked. -/
structure Exhausted (program : Program) (s : State) : Prop where
  reached : Reached program s
  initialized : s.initialized = true
  files {file statement : NodeId} : file ∈ program.tree.files →
    statement ∈ program.tree.children file → s.Remembers program.tree statement

/-- Once the files have been merged their namespaces have types. -/
theorem Reached.typed (h : Reached program s) (hinit : s.initialized = true)
    (hkind : program.tree.kind? n = some (.namespaceStatement parts))
    (hn : program.bindings.symbolOf? n = some symbol) :
    ∃ t, (s.bindings.symbolOf? n).bind s.namespaceTypeOf? = some t := by
  rw [h.symbolOf, hn, bind_some]
  obtain ⟨paths, rfl | ⟨s₁, hprep, hchk⟩⟩ := h.prepares
  · simp [State.initial] at hinit
  · have hc : program.environment.tree.Complete := h.complete
    rw [(hchk.frame hc.toWellFormed).namespaceTypeOf]
    exact (declaring_prepared hc hprep).typed hkind symbol
      ((Bindings.symbolOf?_declaring _ _ _ n).trans hn)

namespace Exhausted

variable (h : Exhausted program s)

include h

/-- Everything that the files declare is remembered. -/
theorem remembers (hsite : Site program.tree program.bindings n scope kind i id)
    (hother : ∀ name, kind ≠ .intrinsicStatement name) : s.Remembers program.tree n := by
  have hc := h.reached.complete
  have hsit := program.bindings_situated hc
  have hglobal : n ∉ program.tree.children globalNamespace := fun hmem => by
    obtain ⟨name, hname⟩ := hc.intrinsics hmem
    exact hother name (mem_unique hsite.kind hname)
  induction n using hc.upward_induction generalizing id scope kind i with
  | step n ih =>
    cases hsite.scopes with
    | intrinsic hmem => exact absurd hmem hglobal
    | file hfile hstmts | captured hfile hstmts =>
      exact h.files hfile (by simp [children, hstmts])
    | @block _ m outer symbol houter _ hmem hm =>
      have hn := hc.parent_of_statement houter hmem
      have hmroot : m ≠ globalNamespace := by
        rintro rfl
        exact hglobal (hc.mem_of_parent hn)
      obtain ⟨scope', i', hsite'⟩ := hsit.site_of_namespace hc hm houter hmroot
      have hrems := ih m hn hsite' (by simp) fun hmem' => by
        obtain ⟨name, hname⟩ := hc.intrinsics hmem'
        simp [houter] at hname
      obtain ⟨t, hloc⟩ := h.reached.typed h.initialized houter hm
      exact h.reached.swept (hrems.visited houter hloc) houter hmem

theorem isInstantiating (d : NodeId) : s.isInstantiating d = false := by
  cases hinsting : s.isInstantiating d with
  | false => rfl
  | true => exact absurd (Or.inr hinsting) (h.reached.not_busy d)

/-- The type of what the files declare is known. -/
theorem exists_declaredType (hn : program.bindings.symbolOf? n = some id)
    (hsite : Site program.tree program.bindings n scope kind i id)
    (hother : ∀ name, kind ≠ .intrinsicStatement name)
    (hnot : kind.symbolKind? ≠ some .namespaceKind) : ∃ t, s.declaredType? id = some t :=
  (h.remembers hsite hother).declared (isRemembered_of_site h.reached.complete hsite hother)
    hsite.kind hnot ((h.reached.symbolOf n).trans hn)

/-- Asking for the type of something that the files declare changes nothing. -/
theorem checkNode (hdepth : 0 < depth) (hn : program.bindings.symbolOf? n = some id)
    (hne : n ≠ globalNamespace)
    (hother : ∀ name, program.tree.kind? n ≠ some (.intrinsicStatement name)) :
    ∃ t, Checking.checkNode depth n program.environment s = some (t, s) := by
  have hc := h.reached.complete
  have hsit := program.bindings_situated hc
  obtain ⟨depth, rfl⟩ : ∃ d, depth = d + 1 := ⟨depth - 1, by omega⟩
  rcases hsit.site hn with rfl | ⟨scope, kind, i, hsite⟩ | ⟨d, outer, i, hmem, hd, -⟩
  · exact absurd rfl hne
  · have hother' : ∀ name, kind ≠ .intrinsicStatement name := by
      rintro name rfl
      exact hother name hsite.kind
    by_cases hns : kind.symbolKind? = some .namespaceKind
    · obtain ⟨parts, rfl⟩ : ∃ parts, kind = .namespaceStatement parts := by
        cases kind <;> simp_all
      obtain ⟨t, hloc⟩ := h.reached.typed h.initialized hsite.kind hn
      exact ⟨t, checkStep_of_visited hsite.kind hloc
        ((h.remembers hsite hother').visited hsite.kind hloc)⟩
    · obtain ⟨t, ht⟩ := h.exists_declaredType hn hsite hother' hns
      refine ⟨t, checkStep_of_declared hsite.kind (isRemembered_of_site hc hsite hother') hns
        (h.isInstantiating n) ?_⟩
      rw [State.declaredTypeOfNode?, h.reached.symbolOf, hn]
      exact ht
  · -- A template is remembered, and so are its parameters.
    obtain ⟨kind, hkind, hparam⟩ := mem_templateParameters hmem
    obtain ⟨name, hname⟩ := hc.exists_parameter_name hmem
    obtain ⟨scope, hsite⟩ : ∃ scope i, Site program.tree program.bindings d scope kind i outer := by
      rcases hsit.site hd with rfl | ⟨scope, kind', i, hsite⟩ | ⟨_, _, _, hmem', -⟩
      · obtain ⟨-, parts, hglobal⟩ := hc.global_root
        obtain rfl := mem_unique hglobal hkind
        simp at hparam
      · obtain rfl := mem_unique hsite.kind hkind
        exact ⟨scope, i, hsite⟩
      · obtain ⟨name', hname'⟩ := hc.exists_parameter_name hmem'
        obtain rfl := mem_unique hname' hkind
        simp at hparam
    obtain ⟨i, hsite⟩ := hsite
    obtain ⟨t, ht⟩ := h.exists_declaredType hd hsite (by
      rintro name rfl
      simp at hparam) (by
      intro heq
      cases kind <;> simp_all)
    obtain ⟨u, hu⟩ := h.reached.furnished ((h.reached.symbolOf d).trans hd) ht n hmem
    exact ⟨u, checkStep_of_parameter hc.toWellFormed hname hmem (h.isInstantiating d) hu⟩

/-- So it is for all statements of a file. -/
theorem checkStatement (hdepth : 0 < depth) (hfile : file ∈ program.tree.files)
    (hn : n ∈ program.tree.children file) :
    ∃ t, Checking.checkNode depth n program.environment s = some (t, s) := by
  have hc := h.reached.complete
  obtain ⟨kind, hkind, hstmt⟩ := hc.statements hfile hn
  have hne := hc.ne_global (hc.parent_of_mem hn) (.head _)
  have hother : ∀ name, program.tree.kind? n ≠ some (.intrinsicStatement name) := by
    intro name hname
    obtain rfl := mem_unique hkind hname
    simp [NodeKind.isStatement] at hstmt
  cases hsymKind : kind.symbolKind? with
  | none =>
    obtain ⟨target, rfl⟩ : ∃ target, kind = .usingStatement target := by
      cases kind <;> simp_all [NodeKind.isStatement]
    obtain ⟨depth, rfl⟩ : ∃ d, depth = d + 1 := ⟨depth - 1, by omega⟩
    refine ⟨TypeTable.errorType, ?_⟩
    rw [Checking.checkNode, checkStep]
    simp only [getTree_bind, show program.environment.tree.kind? n = _ from hkind]
    rfl
  | some symbolKind =>
    obtain ⟨id, hid⟩ := (program.bindings_builds hc).bound (hc.file_root hfile).1 hn kind
      symbolKind hkind hsymKind (by
        rintro rfl
        cases kind <;> simp_all [NodeKind.isStatement])
    exact h.checkNode hdepth hid hne hother

theorem checkFile (hdepth : 0 < depth) (hfile : file ∈ program.tree.files) :
    Checking.checkFile depth file program.environment s = some ((), s) := by
  obtain ⟨-, name, statements, hkind⟩ := h.reached.complete.file_root hfile
  refine run_bind.mpr ⟨(), s, prepare_eq_self h.initialized, ?_⟩
  simp only [getTree_bind, show program.environment.tree.kind? file = _ from hkind]
  refine forM_eq_self fun n hn => run_discard.mpr (h.checkStatement hdepth hfile ?_)
  simpa [children, hkind] using hn

/-- Checking the program again changes nothing. -/
theorem checkProgram (hdepth : 0 < depth) :
    Checking.checkProgram depth program.environment s = some (s.failure, s) := by
  refine run_bind.mpr ⟨(), s, prepare_eq_self h.initialized, ?_⟩
  simp only [getTree_bind]
  exact run_bind.mpr ⟨_, s, forM_eq_self fun file hfile => h.checkFile hdepth hfile, rfl⟩

/-- Calls do not undo this. -/
theorem calls (hcalls : Relation.ReflTransGen (Call program) s s') : Exhausted program s' := by
  have hframe := (checked_of_calls h.reached.wellFormed h.initialized hcalls).frame
    h.reached.wellFormed
  exact ⟨h.reached.calls_trans hcalls, hframe.initialized.trans h.initialized,
    fun hfile hmem => (h.files hfile hmem).retains hframe.toRetains⟩

end Exhausted

/-! ### Checking a program -/

/-- What is checked file by file is remembered. -/
theorem checkFiles_remembers (hwf : env.tree.WellFormed) {files : List NodeId} {u : PUnit}
    (hinit : s.initialized = true) (hidle : ∀ d, ¬ s.Busy d)
    (hrun : files.forM (checkFile depth) env s = some (u, s')) :
    ∀ file ∈ files, ∀ name statements, env.tree.kind? file = some (.sourceFile name statements) →
      ∀ statement ∈ statements, s'.Remembers env.tree statement := by
  induction files generalizing s with
  | nil => simp
  | cons first rest ih =>
    obtain ⟨s₁, hfirst, hrest⟩ := run_forM_cons.mp hrun
    have hchk : ∀ {r r' file}, r.initialized = true →
        checkFile depth file env r = some (⟨⟩, r') → Checked env r r' := fun hr hrun => by
      obtain ⟨r₁, hprep, hchk⟩ := checkFile_checked hwf hrun
      obtain rfl := prepare_of_initialized hr hprep
      exact hchk hr
    have hframe := (hchk hinit hfirst).frame hwf
    have hlater := forM_checked hwf (fun _ _ _ _ hr hrun => hchk hr hrun)
      (hframe.initialized.trans hinit) hrest
    intro file hfile name statements hkind statement hmem
    rcases List.mem_cons.mp hfile with rfl | hfile
    · obtain ⟨_, s₂, hprep, hstmts⟩ := run_bind.mp hfirst
      obtain rfl := prepare_of_initialized hinit hprep
      simp only [getTree_bind, hkind] at hstmts
      have hrems := (visits_remembers ((covers_evolution hwf).relates hwf depth) hstmts
        statement hmem).resolve_right (hidle statement)
      exact hrems.retains (hlater.frame hwf).toRetains
    · exact ih (hframe.initialized.trans hinit) (fun d => by
        rw [hframe.toRetains.busy]
        exact hidle d) hrest file hfile name statements hkind statement hmem

/-- A check of the program leaves nothing to do. -/
theorem checkProgram_exhausts (h : Reached program s) {answer : Option CheckError}
    (hrun : checkProgram depth program.environment s = some (answer, s')) :
    Exhausted program s' ∧ answer = s'.failure := by
  have hc := h.complete
  have hwf : program.environment.tree.WellFormed := hc.toWellFormed
  have hreached : Reached program s' := h.calls_trans (.single (.of_check hrun))
  obtain ⟨_, s₁, hprep, hrest⟩ := run_bind.mp hrun
  obtain ⟨hinit, hidle⟩ := h.prepare_idle hprep
  simp only [getTree_bind] at hrest
  obtain ⟨_, s₂, hfiles, hanswer⟩ := run_bind.mp hrest
  simp only [get_bind, run_pure] at hanswer
  obtain ⟨rfl, rfl⟩ := hanswer
  refine ⟨⟨hreached, ?_, fun {file statement} hfile hmem => ?_⟩, rfl⟩
  · obtain ⟨s₃, hprep₃, hchk⟩ := (Call.of_check hrun).checked hc.toWellFormed
    obtain rfl := (Prod.mk.inj (mem_unique hprep₃ hprep)).2
    exact ((hchk hinit).frame hwf).initialized.trans hinit
  · obtain ⟨-, name, statements, hkind⟩ := hc.file_root hfile
    refine checkFiles_remembers hwf hinit hidle hfiles file hfile name statements hkind statement ?_
    simpa [children, hkind] using hmem

/-- Checking is idempotent. Once a program has been checked, checking it again or asking for the
type of anything that the files declare leaves the whole state as it is, and the answer is the same;
this stays so whatever else the checker is asked for in between. -/
theorem checking_idempotent {depth : Nat} {answer : Option CheckError} (h : Reached program s)
    (hrun : checkProgram depth program.environment s = some (answer, s')) :
    answer = s'.failure ∧ ∀ s₁, Relation.ReflTransGen (Call program) s' s₁ → ∀ again, 0 < again →
      checkProgram again program.environment s₁ = some (s₁.failure, s₁) ∧
      ∀ node symbol, program.bindings.symbolOf? node = some symbol →
        node ≠ globalNamespace →
        (∀ name, program.tree.kind? node ≠ some (.intrinsicStatement name)) →
        ∃ t, typeOfNode again node program.environment s₁ = some (t, s₁) := by
  obtain ⟨hexhausted, hanswer⟩ := checkProgram_exhausts h hrun
  refine ⟨hanswer, fun s₁ hcalls again hagain => ?_⟩
  have hlater := hexhausted.calls hcalls
  refine ⟨hlater.checkProgram hagain, fun node symbol hsymbol hne hother => ?_⟩
  obtain ⟨t, ht⟩ := hlater.checkNode hagain hsymbol hne hother
  exact ⟨t, run_bind.mpr ⟨(), s₁, prepare_eq_self hlater.initialized, ht⟩⟩

/-- One namespace in two files. The alias `Letters` for crates of letters and the model `Letter`,
which has a bag of letters, are about each other, which is reported; crates are documented. -/
def depots : Program :=
  .ofFiles .default (Documentation.install .empty) [
    ⟨"goods", [.namespaceDecl "Depot" false [
      .modelDecl "Crate" ["T"] none none [.required "content" "T",
          .property "spare" true (.reference "Crate" [.reference "T" []]) none []]
        [.mk "doc" [.string "A crate."]],
      .aliasDecl "Letters" [] (.reference "Crate" [.reference "Letter" []])] []]⟩,
    ⟨"post", [.namespaceDecl "Depot" true [] [],
      .model "Letter" [.required "bag" "Letters"],
      .operationDecl ⟨"send", [], .reference "Crate" [.reference "string" []], []⟩]⟩]

/-- After the check of the depots there is one diagnostic, and neither another check nor asking for
the parameter of crates or for the alias adds anything. -/
theorem checking_idempotent_depots :
    ∃ answer s, depots.run 20 = some (answer, s) ∧ s.types.size = 19 ∧
      s.diagnostics.toList.length = 1 ∧ s.attempts.length = 2 ∧
      checkProgram 1 depots.environment s = some (answer, s) ∧
      (∃ t, typeOfNode 1 ⟨23⟩ depots.environment s = some (t, s)) ∧
      ∃ t, typeOfNode 1 ⟨37⟩ depots.environment s = some (t, s) := by
  obtain ⟨answer, s, hrun, hsize, hdiagnostics, hattempts⟩ := @exists_run depots 20
    (fun s => s.types.size = 19 ∧ s.diagnostics.toList.length = 1 ∧ s.attempts.length = 2) _
    (by decide +kernel)
  have hinitial : Reached depots (.initial depots.bindings) := .initial _ _ _
  obtain ⟨hanswer, hagain⟩ := checking_idempotent hinitial hrun
  obtain ⟨hprogram, hnode⟩ := hagain s .refl 1 Nat.one_pos
  refine ⟨answer, s, hrun, hsize, hdiagnostics, hattempts, hanswer ▸ hprogram, ?_, ?_⟩
  · exact hnode ⟨23⟩ ⟨22⟩ (by decide +kernel) (by decide +kernel) (fun name => by
      rw [show depots.tree.kind? ⟨23⟩ = some (.templateParameterDeclaration "T") by decide +kernel]
      simp)
  · exact hnode ⟨37⟩ ⟨23⟩ (by decide +kernel) (by decide +kernel) (fun name => by
      rw [show depots.tree.kind? ⟨37⟩ = some (.aliasStatement ⟨"Letters", [], ⟨36⟩⟩) by
        decide +kernel]
      simp)

end ApiSchema.Checking
