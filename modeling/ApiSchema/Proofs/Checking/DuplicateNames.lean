import ApiSchema.Proofs.Binding.Contests
import ApiSchema.Proofs.Binding.Records
import ApiSchema.Proofs.Checking.NamespaceTypes
import ApiSchema.Proofs.Checking.Reports
import ApiSchema.Proofs.Checking.Session
import ApiSchema.Proofs.Syntax.Forest

/-!
# Duplicate names are reported exactly

When a program is prepared, every symbol that is on record for a contested name is reported, once,
at its first declaration. The places of nodes are told apart by where they end. So a statement that
declares something else than a namespace gets exactly one report if another symbol has its name in
its namespace, and none if there is no such symbol and no names are imported.
-/

namespace ApiSchema

open Bindings OrderedMap Table SymbolTable List

variable {tree : Tree} {n : NodeId} {place : String × Span} {kind : NodeKind} {b : Bindings}
  {id : SymbolId}

namespace Checking

variable {env : Environment} {s s' : State}

/-! ### What is reported -/

/-- The report about a symbol that contests a name. -/
def contestReport? (tree : Tree) (b : Bindings) (id : SymbolId) : Option Diagnostic :=
  (b.symbol? id).map fun symbol =>
    diagnosticAt tree .duplicateName [symbol.name] symbol.declarations.head?

/-- Each contested name is reported once. -/
theorem reportContestedNames_eq {u : Unit} (hrun : reportContestedNames env s = some (u, s')) :
    s' = { s with diagnostics := ⟨s.diagnostics.toList ++
      s.contestedNames.flatten.eraseDups.filterMap (contestReport? env.tree s.bindings)⟩ } := by
  simp only [reportContestedNames, get_bind] at hrun
  generalize s.contestedNames.flatten.eraseDups = claimants at hrun
  induction claimants generalizing s with
  | nil =>
    rw [run_forM_nil.mp hrun]
    simp
  | cons id rest ih =>
    obtain ⟨s₁, hfirst, hrest⟩ := run_forM_cons.mp hrun
    simp only [get_bind] at hfirst
    have hfirst' : s₁ = { s with diagnostics :=
        ⟨s.diagnostics.toList ++ (contestReport? env.tree s.bindings id).toList⟩ } := by
      replace hfirst := run_chosen hfirst
      split at hfirst
      next hnone =>
        simp [(run_pure.mp hfirst).2, contestReport?, hnone]
      next symbol hsym =>
        simp only [Chosen, report, getTree_bind, run_modify] at hfirst
        simp [hfirst, contestReport?, hsym, Diagnostics.add]
    rw [ih hrest, hfirst']
    cases hreport : contestReport? env.tree s.bindings id <;> simp [hreport]

/-- Giving types to namespaces reports nothing and leaves symbols alone. -/
theorem createNamespaceTypes_keep {entries : List (NodeId × String)} {u : PUnit}
    (hrun : entries.forM (fun entry => createNamespaceType entry.1 entry.2) env s = some (u, s')) :
    s'.bindings = s.bindings ∧ s'.mergedSymbols = s.mergedSymbols ∧
      s'.diagnostics = s.diagnostics := by
  refine forM_preserves (P := fun s' => s'.bindings = s.bindings ∧
    s'.mergedSymbols = s.mergedSymbols ∧ s'.diagnostics = s.diagnostics) ⟨rfl, rfl, rfl⟩
    (fun h hrun => ?_) hrun
  rcases createNamespaceType_cases hrun with ⟨rfl, -⟩ | ⟨rfl, -⟩ | ⟨_, _, -, -, -, rfl⟩ <;> exact h

/-! ### Places -/

end Checking

/-- The name of the file that a node stands in and the span that it covers. -/
def Tree.place? (tree : Tree) (n : NodeId) : Option (String × Span) :=
  (tree.fileNameOf? n).bind fun file => (tree.node? n).map fun row => (file, row.range.toSpan)

/-- The place that a diagnostic points at. -/
def Diagnostic.place? (d : Diagnostic) : Option (String × Span) :=
  d.file.bind fun file => d.span.map fun span => (file, span)

/-- Nodes with the same place are the same. -/
theorem Tree.Tiled.eq_of_place (h : tree.Tiled) {m : NodeId} (hn : tree.place? n = some place)
    (hm : tree.place? m = some place) :
    n = m := by
  have hstop : ∀ {k : NodeId}, tree.place? k = some place →
      place.2.start + place.2.length = k.index + 1 := by
    intro k hk
    obtain ⟨file, -, hk⟩ := Option.bind_eq_some_iff.mp hk
    obtain ⟨row, hrow, rfl⟩ := Option.map_eq_some_iff.mp hk
    have hrange : tree.range? k = some row.range := by simp [Tree.range?, hrow]
    have hstop := h.stop hrange
    have hle := (h.tiles hrange).le
    simp only [TextRange.toSpan, Span.ofBounds]
    omega
  have hindex : n.index = m.index := by
    have := hstop hn
    have := hstop hm
    omega
  cases n
  cases m
  exact congrArg _ hindex

/-- What stands in a file has a place. -/
theorem Tree.exists_place {file : NodeId} (hn : tree.kind? n = some kind)
    (hfile : tree.isSourceFile file = true) (hinside : file ∈ tree.selfAndAncestors n) :
    ∃ place, tree.place? n = some place := by
  obtain ⟨row, hrow, -⟩ := Option.map_eq_some_iff.mp hn
  obtain ⟨found, hfound⟩ : ∃ found, tree.sourceFileOf? n = some found := by
    rw [← Option.isSome_iff_exists, Tree.sourceFileOf?, find?_isSome]
    exact ⟨file, hinside, hfile⟩
  have hsource : tree.isSourceFile found = true := find?_some hfound
  obtain ⟨foundKind, hkind, hisFile⟩ := (Option.any_eq_true _ _).mp hsource
  cases foundKind with
  | sourceFile name statements =>
    exact ⟨(name, row.range.toSpan), by simp [Tree.place?, Tree.fileNameOf?, hfound, hkind, hrow]⟩
  | _ => simp at hisFile

/-- A statement that is bound has its place among the declarations of a scope. -/
theorem Bindings.Situated.site_of_statement (h : Situated tree b) (hc : tree.Complete)
    (hkind : tree.kind? n = some kind) (hstmt : kind.isStatement = true)
    (hplain : kind.isNamespace = false) (hn : b.symbolOf? n = some id) :
    ∃ scope i, Site tree b n scope kind i id := by
  refine h.site_of_kind hc hn hkind ?_ ?_
  · rintro rfl
    obtain ⟨-, parts, hglobal⟩ := hc.global_root
    obtain rfl := Option.mem_unique hglobal hkind
    simp at hplain
  · rintro name rfl
    simp [NodeKind.isStatement] at hstmt

/-- Such a statement stands in a file, and so it has a place in the text. -/
theorem Bindings.Site.exists_place {scope : BindingScope} {i : Symbol.Identity}
    (h : Site tree b n scope kind i id) (hc : tree.Complete) (hsit : Situated tree b)
    (hstmt : kind.isStatement = true) :
    ∃ place, tree.place? n = some place := by
  obtain ⟨file, hfile, hroot⟩ := hsit.exists_file_of_scopes hc h.scopes fun name hname => by
    obtain rfl := Option.mem_unique hname h.kind
    simp [NodeKind.isStatement] at hstmt
  exact Tree.exists_place h.kind (hc.mem_files_iff.mp hfile) hroot

namespace Checking

variable {s s' : State}

theorem place?_diagnosticAt (tree : Tree) (message : Message) (arguments : List String)
    (node : Option NodeId) :
    (diagnosticAt tree message arguments node).place? = node.bind tree.place? := by
  rw [diagnosticAt]
  split
  case _ file span hplace =>
    rw [show node.bind tree.place? = some (file, span) from hplace]
    rfl
  case _ hplace =>
    rw [show node.bind tree.place? = none from hplace]
    rfl

/-! ### Who is reported -/

theorem mem_localTables {entry : NodeId × SymbolTable} :
    entry ∈ b.localTables ↔ entry ∈ b.locals.entries := by
  have hinsert : ∀ (first : NodeId × SymbolTable) (tables : List (NodeId × SymbolTable)),
      entry ∈ insertTable first tables ↔ entry = first ∨ entry ∈ tables := by
    intro first tables
    induction tables with
    | nil => simp [insertTable]
    | cons table rest ih =>
      rw [insertTable]
      split
      · exact mem_cons
      · rw [mem_cons, mem_cons, ih, or_left_comm]
  rw [localTables]
  induction b.locals.entries with
  | nil => simp
  | cons table rest ih =>
    rw [foldr_cons, hinsert, mem_cons]
    exact or_congr_right ih

theorem exists_mem_values_iff {table : SymbolTable} :
    (∃ ids ∈ table.duplicates.values, id ∈ ids) ↔ ∃ name, id ∈ table.contestants name := by
  constructor
  · rintro ⟨ids, hids, hid⟩
    obtain ⟨entry, hentry, rfl⟩ := mem_map.mp hids
    refine ⟨entry.1, ?_⟩
    rw [contestants, find?_eq_some_iff.mpr hentry]
    exact hid
  · rintro ⟨name, hid⟩
    cases hfind : table.duplicates.find? name with
    | none => simp [contestants, hfind] at hid
    | some ids =>
      refine ⟨ids, mem_map.mpr ⟨_, find?_eq_some_iff.mp hfind, rfl⟩, ?_⟩
      simpa [contestants, hfind] using hid

/-- Who is reported is on record in a namespace, or among local names. -/
theorem mem_contestedNames_iff :
    id ∈ s.contestedNames.flatten ↔ s.Contests id ∨
      ∃ n table name, s.bindings.locals.find? n = some table ∧ id ∈ table.contestants name := by
  have hexported : ∀ row : SymbolId × Symbol, (∃ ids ∈ (if row.2.isNamespace &&
      s.mergedSymbol row.1 = row.1 then (row.2.exports.map fun table => table.duplicates.values).getD []
      else []), id ∈ ids) ↔ row.2.isNamespace = true ∧ s.mergedSymbol row.1 = row.1 ∧
        ∃ table, row.2.exports = some table ∧ ∃ name, id ∈ table.contestants name := by
    intro row
    split
    next hself =>
      simp only [Bool.and_eq_true, decide_eq_true_eq] at hself
      cases hexp : row.2.exports with
      | none => simp
      | some table => simp [hself, exists_mem_values_iff]
    next hnot =>
      simp only [Bool.and_eq_true, decide_eq_true_eq, not_and] at hnot
      simp only [not_mem_nil, false_and, exists_false, false_iff, not_and]
      exact fun hns hself => absurd hself (hnot hns)
  rw [State.contestedNames, mem_flatten]
  simp only [mem_append, or_and_right, exists_or, mem_flatMap]
  refine or_congr ⟨?_, ?_⟩ ⟨?_, ?_⟩
  · rintro ⟨ids, ⟨⟨owner, row⟩, hrow, hids⟩, hid⟩
    obtain ⟨hns, hself, table, hexp, name, hname⟩ := (hexported _).mp ⟨ids, hids, hid⟩
    have hsym : s.bindings.symbol? owner = some row := mem_toList.mp hrow
    refine ⟨owner, table, name, ?_, hself, ?_, hname⟩
    · rw [isNamespace, hsym]
      exact hns
    · rw [exports?, hsym]
      exact hexp
  · rintro ⟨owner, table, name, hns, hself, htable, hname⟩
    obtain ⟨row, hsym, hexp⟩ := Option.bind_eq_some_iff.mp htable
    have hrow : row.isNamespace = true := by simpa [isNamespace, hsym] using hns
    obtain ⟨ids, hids, hid⟩ := (hexported (owner, row)).mpr
      ⟨hrow, hself, table, hexp, name, hname⟩
    exact ⟨ids, ⟨(owner, row), mem_toList.mpr hsym, hids⟩, hid⟩
  · rintro ⟨ids, ⟨⟨n, table⟩, hentry, hids⟩, hid⟩
    obtain ⟨name, hname⟩ := exists_mem_values_iff.mp ⟨ids, hids, hid⟩
    exact ⟨n, table, name, find?_eq_some_iff.mpr (mem_localTables.mp hentry), hname⟩
  · rintro ⟨n, table, name, hfind, hname⟩
    obtain ⟨ids, hids, hid⟩ := exists_mem_values_iff.mpr ⟨name, hname⟩
    exact ⟨ids, ⟨(n, table), mem_localTables.mpr (find?_eq_some_iff.mp hfind), hids⟩, hid⟩

theorem nodup_eraseDups (ids : List SymbolId) : ids.eraseDups.Nodup := by
  induction hlength : ids.length using Nat.strongRecOn generalizing ids with
  | ind length ih =>
    cases ids with
    | nil => simp
    | cons id rest =>
      rw [eraseDups_cons, nodup_cons]
      refine ⟨by simp [mem_eraseDups], ih _ ?_ _ rfl⟩
      have hle := length_filter_le (fun other => !other == id) rest
      simp only [length_cons] at hlength
      omega

/-- The number of complaints of a duplicate name that point at a node. -/
def State.duplicateReports (s : State) (tree : Tree) (n : NodeId) : Nat :=
  s.diagnostics.toList.countP fun d => d.code = 1009 ∧ d.place? = tree.place? n

/-- The report about a symbol points at a statement exactly if the statement declares it. -/
theorem contestReport?_place (hb : Consistent tree b) (htiled : tree.Tiled)
    (hkind : tree.kind? n = some kind) (hplain : kind.isNamespace = false)
    (hplace : tree.place? n = some place) (hn : b.symbolOf? n = some id) (other : SymbolId) :
    (∃ d, contestReport? tree b other = some d ∧ d.place? = tree.place? n) ↔ other = id := by
  have hnot : ∀ {symbolKind}, kind.symbolKind? = some symbolKind → symbolKind ≠ .namespaceKind := by
    intro symbolKind hsymKind
    cases kind <;> simp_all
    all_goals
      rw [← hsymKind]
      simp
  constructor
  · rintro ⟨d, hd, hsame⟩
    obtain ⟨symbol, hsym, rfl⟩ := Option.map_eq_some_iff.mp hd
    rw [place?_diagnosticAt, hplace] at hsame
    obtain ⟨m, hm, hmplace⟩ := Option.bind_eq_some_iff.mp hsame
    obtain rfl := htiled.eq_of_place hplace hmplace
    have hmem : n ∈ symbol.declarations := mem_of_head? hm
    obtain ⟨nodeKind, hnKind, hsymKind⟩ := hb.kind (profile?_of_symbol? hsym) hmem
    obtain rfl := Option.mem_unique hkind hnKind
    obtain ⟨-, hother⟩ := hb.unique (profile?_of_symbol? hsym) (hnot hsymKind) hmem
    exact Option.mem_unique hother hn
  · rintro rfl
    obtain ⟨symbolKind, declarations, hprof, hmem⟩ := hb.declared hn
    obtain ⟨nodeKind, hnKind, hsymKind⟩ := hb.kind hprof hmem
    obtain rfl := Option.mem_unique hkind hnKind
    obtain ⟨rfl, -⟩ := hb.unique hprof (hnot hsymKind) hmem
    obtain ⟨symbol, hsym, hprof⟩ := Option.map_eq_some_iff.mp hprof
    refine ⟨_, by rw [contestReport?, hsym]; rfl, ?_⟩
    rw [place?_diagnosticAt, (Prod.mk.inj hprof).2]
    rfl

section

variable {files : List SourceFile} {paths : List String} {registry : Registry} {designTime : Bool}

/-- A statement is complained of once or not at all. -/
theorem countP_contestReports {claimants : List SymbolId} {before : List Diagnostic}
    (hb : Consistent tree b) (htiled : tree.Tiled) (hkind : tree.kind? n = some kind)
    (hplain : kind.isNamespace = false) (hplace : tree.place? n = some place)
    (hn : b.symbolOf? n = some id) (hnodup : claimants.Nodup)
    (hbefore : ∀ d ∈ before, d.message ≠ .duplicateName) :
    (before ++ claimants.filterMap (contestReport? tree b)).countP
        (fun d => d.code = 1009 ∧ d.place? = tree.place? n) =
      if id ∈ claimants then 1 else 0 := by
  have hnone : before.countP (fun d => d.code = 1009 ∧ d.place? = tree.place? n) = 0 := by
    rw [countP_eq_zero]
    intro d hd hreport
    refine hbefore d hd ?_
    have hcode : d.message.code = 1009 := (of_decide_eq_true hreport).1
    cases hmessage : d.message <;> simp_all [Message.code]
  have hone : ∀ other ∈ claimants, ((contestReport? tree b other).map
      fun d => decide (d.code = 1009 ∧ d.place? = tree.place? n)).getD false = true ↔
        (other == id) = true := by
    intro other _
    rw [beq_iff_eq, ← contestReport?_place hb htiled hkind hplain hplace hn other]
    cases hreport : contestReport? tree b other with
    | none => simp
    | some d =>
      obtain ⟨symbol, -, rfl⟩ := Option.map_eq_some_iff.mp hreport
      have hcode : (diagnosticAt tree .duplicateName [symbol.name]
          symbol.declarations.head?).code = 1009 := by
        rw [diagnosticAt]
        split <;> rfl
      simp [hcode]
  rw [countP_append, hnone, Nat.zero_add, countP_filterMap, countP_congr hone]
  exact hnodup.count

/-- Who contests a name and who claims it depends on the symbols and on what stands for them. -/
theorem State.contests_congr (hsyms : s'.bindings.symbols = s.bindings.symbols)
    (hmerged : s'.mergedSymbols = s.mergedSymbols) : s'.Contests = s.Contests := by
  funext id
  simp only [State.Contests, isNamespace, exports?, symbol?, State.mergedSymbol, hsyms, hmerged]

theorem State.claims_congr (hsyms : s'.bindings.symbols = s.bindings.symbols)
    (hmerged : s'.mergedSymbols = s.mergedSymbols) : s'.Claims = s.Claims := by
  funext id name owner
  simp only [State.Claims, symbol?, State.mergedSymbol, hsyms, hmerged]

theorem State.contestedNames_congr (hbinds : s'.bindings = s.bindings)
    (hmerged : s'.mergedSymbols = s.mergedSymbols) : s'.contestedNames = s.contestedNames := by
  have hsym : s'.mergedSymbol = s.mergedSymbol := by
    funext id
    rw [State.mergedSymbol, State.mergedSymbol, hmerged]
  rw [State.contestedNames, State.contestedNames, hbinds, hsym]

/-- After preparing, the symbols are those of the merged files, and those that contest a name have
been reported. Without `using` statements local names are as they were. -/
theorem prepare_reports {u : Unit} (hrun : prepare ⟨.ofFiles files, registry, designTime⟩
      (.initial (.declaring (.ofFiles files) paths)) = some (u, s)) :
    ∃ merged before, merged = State.mergeFiles
        { State.initial (.declaring (.ofFiles files) paths) with initialized := true }
          (Tree.ofFiles files).files ∧
      s.bindings.symbols = merged.bindings.symbols ∧ s.mergedSymbols = merged.mergedSymbols ∧
      ((declaring (.ofFiles files) paths).usings = [] →
        s.bindings.locals = (declaring (.ofFiles files) paths).locals) ∧
      s.diagnostics.toList = before ++ s.contestedNames.flatten.eraseDups.filterMap
        (contestReport? (.ofFiles files) s.bindings) ∧
      ∀ d ∈ before, d.message ≠ .duplicateName := by
  have hc := Tree.ofFiles_complete files
  obtain ⟨-, s₁, s₂, husings, hcont, htypes⟩ :=
    (prepare_stages hrun).resolve_left fun h => by simp [State.initial] at h
  obtain ⟨merged, hmerged⟩ : ∃ merged, merged = State.mergeFiles
      { State.initial (.declaring (.ofFiles files) paths) with initialized := true }
        (Tree.ofFiles files).files := ⟨_, rfl⟩
  have hinto : State.Enters
      { State.initial (.declaring (.ofFiles files) paths) with initialized := true } merged :=
    hmerged ▸ State.mergeFiles_enters ..
  have hdiags : merged.diagnostics = .empty := by rw [hinto]; rfl
  have husingsOf : merged.bindings.usings = (declaring (.ofFiles files) paths).usings := by
    rw [hinto]
    rfl
  have hlocals : merged.bindings.locals = (declaring (.ofFiles files) paths).locals := by
    rw [hinto]
    rfl
  simp only [← hmerged] at husings
  have himps := checkUsings_imports hc.toWellFormed (List.Subset.refl _) husings
  obtain ⟨heq, hsyms, -⟩ := imports_keep himps
  obtain ⟨before, hbefore, hmessages⟩ := Tells.forM checkUsing_tells _ _ _ _ husings
  obtain ⟨hbinds, hmergedSymbols, hreported⟩ := createNamespaceTypes_keep htypes
  have hreports := reportContestedNames_eq hcont
  have hcontestedNames : s.contestedNames = s₁.contestedNames := by
    rw [State.contestedNames_congr hbinds hmergedSymbols, hreports]
    rfl
  have hother : ∀ d ∈ before, d.message ≠ .duplicateName := fun d hd heq => by
    simpa [heq, Message.code] using hmessages d hd
  refine ⟨merged, before, hmerged, ?_, ?_, fun hnone => ?_, ?_, hother⟩
  · rw [hbinds, hreports, ← hsyms]
  · rw [hmergedSymbols, hreports, heq]
  · have hkept := imports_bindings himps (husingsOf.trans hnone)
    rw [hbinds, hreports, ← hlocals, ← hkept]
  · rw [hcontestedNames, hreported, hbinds, hreports, hbefore, hdiags]
    rfl

/-- When a program is prepared, a statement that declares something else than a namespace is
complained of exactly once if another symbol claims its name in its namespace, whatever files and
reopenings that is made of. If there is no such symbol and there are no `using` statements it is not
complained of. -/
theorem duplicate_names_reported (files : List SourceFile) (paths : List String)
    (registry : Registry) (designTime : Bool) :
    ∃ s, prepare ⟨.ofFiles files, registry, designTime⟩
        (.initial (.declaring (.ofFiles files) paths)) = some ((), s) ∧
      ∀ (n : NodeId) (kind : NodeKind) (name : String) (id owner : SymbolId),
        (Tree.ofFiles files).kind? n = some kind → kind.isStatement = true →
        kind.isNamespace = false → kind.declaredName? = some name →
        s.bindings.symbolOf? n = some id → s.bindings.namespaceOf? n = some owner →
        s.Claims id name (s.mergedSymbol owner) ∧
        ((∃ other, other ≠ id ∧ s.Claims other name (s.mergedSymbol owner)) →
          s.duplicateReports (.ofFiles files) n = 1) ∧
        ((∀ other, s.Claims other name (s.mergedSymbol owner) → other = id) →
          (∀ m target, (Tree.ofFiles files).kind? m ≠ some (.usingStatement target)) →
          s.duplicateReports (.ofFiles files) n = 0) := by
  have hc := Tree.ofFiles_complete files
  have hends : Ends ⟨.ofFiles files, registry, designTime⟩ prepare := prepare_ends hc.toWellFormed
  obtain ⟨_, s, hrun⟩ := hends (.initial (.declaring (.ofFiles files) paths))
  refine ⟨s, hrun, fun n kind name id owner hkind hstatement hplain hname hn howner => ?_⟩
  have hinitial : Blank ⟨.ofFiles files, registry, designTime⟩ _ false _ :=
    .initial (declaring_consistent hc paths)
  have hblank := hinitial.prepare hc.toWellFormed hrun
  obtain ⟨merged, before, hmerged, hsymbols, hmergedSymbols, hlocals, hdiagnostics, hmessages⟩ :=
    prepare_reports hrun
  have hsituated := declaring_situated hc paths
  have htallied := declaring_tallied hc paths
  have hbound : (declaring (.ofFiles files) paths).symbolOf? n = some id := by
    rw [symbolOf?, ← hblank.nodeSymbols]
    exact hn
  obtain ⟨scope, i, hsite⟩ := hsituated.site_of_statement hc hkind hstatement hplain hbound
  obtain ⟨place, hplace⟩ := hsite.exists_place hc hsituated hstatement
  obtain rfl : i.name = name := Option.mem_unique hsite.name hname
  obtain rfl : scope.owner = owner := by
    rw [namespaceOf?, hblank.namespaceSymbols] at howner
    exact Option.mem_unique hsite.located howner
  have hparameter : i.kind ≠ .templateParameter := fun heq => by
    have hsymbolKind := hsite.symbolKind
    rw [heq] at hsymbolKind
    cases kind <;> simp_all [NodeKind.isStatement]
  have hleaf : i.kind ≠ .namespaceKind := fun heq => by
    have hsymbolKind := hsite.symbolKind
    rw [heq] at hsymbolKind
    cases kind <;> simp_all
  obtain ⟨hcollected, haccounts⟩ := mergeFiles_accounts htallied hsituated hc
    (s := { State.initial (.declaring (.ofFiles files) paths) with initialized := true }) rfl rfl
  rw [← hmerged] at hcollected haccounts
  have hcontests := hcollected.contests_iff htallied hsituated haccounts hsite.identity hparameter
    hleaf hsite.parent
  have hstands : merged.mergedSymbol scope.owner = s.mergedSymbol scope.owner := by
    rw [State.mergedSymbol, State.mergedSymbol, hmergedSymbols]
  rw [← State.contests_congr hsymbols hmergedSymbols, ← State.claims_congr hsymbols hmergedSymbols,
    hstands] at hcontests
  have hcount : s.duplicateReports (.ofFiles files) n =
      if id ∈ s.contestedNames.flatten.eraseDups then 1 else 0 := by
    rw [State.duplicateReports, hdiagnostics]
    exact countP_contestReports hblank.consistent (Tree.ofFiles_tiled files) hkind hplain hplace hn
      (nodup_eraseDups _) hmessages
  have hreported : id ∈ s.contestedNames.flatten.eraseDups ↔ _ :=
    mem_eraseDups.trans mem_contestedNames_iff
  refine ⟨?_, fun hother => ?_, fun honly hnone => ?_⟩
  · rw [State.claims_congr hsymbols hmergedSymbols]
    obtain ⟨_, -, -, hclaimed⟩ := htallied.counted hsite.identity hparameter hsite.parent
    have hold := old_of_claims htallied hsituated hclaimed
    exact State.claims_iff.mpr ⟨i, scope.owner,
      (hcollected.unified.identity_old hold).trans hsite.identity, hparameter, rfl, hsite.parent,
      hstands⟩
  · rw [hcount, if_pos (hreported.mpr (.inl (hcontests.mpr hother)))]
  · rw [hcount, if_neg]
    rw [hreported]
    rintro (hcontested | ⟨m, table, key, htable, hid⟩)
    · obtain ⟨other, hne, hclaims⟩ := hcontests.mp hcontested
      exact hne (honly other hclaims)
    · have husings : (declaring (.ofFiles files) paths).usings = [] :=
        eq_nil_iff_forall_not_mem.mpr fun m hm => by
          obtain ⟨target, htarget⟩ := (declaring_opens hc paths).2 m hm
          exact hnone m target htarget
      rw [hlocals husings] at htable
      obtain ⟨j, hj, hkind⟩ := htallied.locals htable (.inr hid)
      obtain rfl := Option.mem_unique hsite.identity hj
      exact hparameter hkind

end

/-- Names that are taken by another declaration of the same namespace, in another file, by a
namespace in another file, by a namespace in the same file, twice in a namespace that could not be
merged, and by a decorator; and names that are not. -/
def zoo : List SourceFile :=
  [⟨"north", [
    .namespaceDecl "Zoo" false [.model "Lion" []] [],
    .model "Keeper" [], .model "Den" [], .model "Pit" [],
    .namespaceDecl "Pit" false [
      .model "Owl" [],
      .aliasDecl "Owl" [] (.reference "Pit" [])] [],
    .model "@doc" [], .model "Fox" []]⟩,
  ⟨"south", [
    .namespaceDecl "Zoo" false [.enumDecl "Lion" [] [], .model "Pit" []] [],
    .aliasDecl "Keeper" [] (.reference "Fox" []),
    .namespaceDecl "Den" false [] []]⟩]

/-- The contested names are reported once, the fox and the pit of the zoo not at all. -/
theorem duplicate_names_reported_zoo : ∃ s, prepare ⟨.ofFiles zoo, .empty, false⟩
      (.initial (.declaring (.ofFiles zoo) ["doc"])) = some ((), s) ∧
    (∀ n ∈ [(⟨20⟩ : NodeId), ⟨22⟩, ⟨23⟩, ⟨24⟩, ⟨25⟩, ⟨30⟩],
      s.duplicateReports (.ofFiles zoo) n = 1) ∧
    ∀ n ∈ [(⟨31⟩ : NodeId), ⟨34⟩], s.duplicateReports (.ofFiles zoo) n = 0 := by
  obtain ⟨s, hrun, hreports⟩ := duplicate_names_reported zoo ["doc"] .empty false
  have husings : ∀ m target, (Tree.ofFiles zoo).kind? m ≠ some (.usingStatement target) := by
    intro m target hm
    obtain ⟨row, hrow, hkind⟩ := Option.map_eq_some_iff.mp hm
    have hnone : ∀ row ∈ (Tree.ofFiles zoo).nodes.toList, row.2.kind.label ≠ "UsingStatement" := by
      decide +kernel
    exact hnone (m, row) (mem_toList.mpr hrow) (hkind ▸ rfl)
  have hdeclared : ∀ name {n id owner}, (((Tree.ofFiles zoo).kind? n).any fun kind =>
      kind.isStatement && !kind.isNamespace && kind.declaredName? = some name) = true →
      s.bindings.symbolOf? n = some id ∧ s.bindings.namespaceOf? n = some owner →
      ((∃ other, other ≠ id ∧ s.Claims other name (s.mergedSymbol owner)) →
        s.duplicateReports (.ofFiles zoo) n = 1) ∧
      ((∀ other, s.Claims other name (s.mergedSymbol owner) → other = id) →
        s.duplicateReports (.ofFiles zoo) n = 0) := by
    intro name n id owner hkind hn
    obtain ⟨kind, hkind, hfacts⟩ := (Option.any_eq_true _ _).mp hkind
    simp only [Bool.and_eq_true, Bool.not_eq_true', decide_eq_true_eq] at hfacts
    obtain ⟨-, hclash, hclean⟩ :=
      hreports n kind name id owner hkind hfacts.1.1 hfacts.1.2 hfacts.2 hn.1 hn.2
    exact ⟨hclash, fun honly => hclean honly husings⟩
  have hevaluated : (prepare ⟨.ofFiles zoo, .empty, false⟩
      (.initial (.declaring (.ofFiles zoo) ["doc"]))).all (fun outcome => decide (
        (∀ n ∈ [((⟨20⟩, ⟨21⟩, ⟨20⟩) : NodeId × SymbolId × SymbolId), (⟨22⟩, ⟨22⟩, ⟨0⟩),
            (⟨23⟩, ⟨23⟩, ⟨0⟩), (⟨24⟩, ⟨24⟩, ⟨0⟩), (⟨25⟩, ⟨26⟩, ⟨25⟩), (⟨30⟩, ⟨28⟩, ⟨0⟩),
            (⟨31⟩, ⟨29⟩, ⟨0⟩), (⟨34⟩, ⟨32⟩, ⟨30⟩)],
          outcome.2.bindings.symbolOf? n.1 = some n.2.1 ∧
          outcome.2.bindings.namespaceOf? n.1 = some n.2.2) ∧
        (∀ rival ∈ [((⟨31⟩, "Lion", ⟨20⟩) : SymbolId × String × SymbolId), (⟨33⟩, "Keeper", ⟨0⟩),
            (⟨34⟩, "Den", ⟨0⟩), (⟨25⟩, "Pit", ⟨0⟩), (⟨27⟩, "Owl", ⟨25⟩), (⟨35⟩, "@doc", ⟨0⟩)],
          outcome.2.Claims rival.1 rival.2.1 (outcome.2.mergedSymbol rival.2.2)) ∧
        ∀ row ∈ outcome.2.bindings.symbols.toList,
          (outcome.2.Claims row.1 "Fox" (outcome.2.mergedSymbol ⟨0⟩) → row.1 = ⟨29⟩) ∧
          (outcome.2.Claims row.1 "Pit" (outcome.2.mergedSymbol ⟨30⟩) → row.1 = ⟨32⟩))) = true := by
    decide +kernel
  rw [hrun, Option.all_some, decide_eq_true_eq] at hevaluated
  obtain ⟨hnodes, hrivals, honly⟩ := hevaluated
  simp only [forall_mem_cons, not_mem_nil, false_implies, implies_true, and_true]
    at hnodes hrivals ⊢
  obtain ⟨hlion, hkeeper, hden, hpit, howl, hdoc, hfox, hinner⟩ := hnodes
  obtain ⟨hlion', hkeeper', hden', hpit', howl', hdoc'⟩ := hrivals
  refine ⟨s, hrun, ⟨?_, ?_, ?_, ?_, ?_, ?_⟩, ?_, ?_⟩
  · exact (hdeclared "Lion" (by decide +kernel) hlion).1 ⟨_, by decide, hlion'⟩
  · exact (hdeclared "Keeper" (by decide +kernel) hkeeper).1 ⟨_, by decide, hkeeper'⟩
  · exact (hdeclared "Den" (by decide +kernel) hden).1 ⟨_, by decide, hden'⟩
  · exact (hdeclared "Pit" (by decide +kernel) hpit).1 ⟨_, by decide, hpit'⟩
  · exact (hdeclared "Owl" (by decide +kernel) howl).1 ⟨_, by decide, howl'⟩
  · exact (hdeclared "@doc" (by decide +kernel) hdoc).1 ⟨_, by decide, hdoc'⟩
  · refine (hdeclared "Fox" (by decide +kernel) hfox).2 fun other hother => ?_
    obtain ⟨symbol, -, hsymbol, -⟩ := id hother
    exact (honly (other, symbol) (mem_toList.mpr hsymbol)).1 hother
  · refine (hdeclared "Pit" (by decide +kernel) hinner).2 fun other hother => ?_
    obtain ⟨symbol, -, hsymbol, -⟩ := id hother
    exact (honly (other, symbol) (mem_toList.mpr hsymbol)).2 hother

end Checking

end ApiSchema
