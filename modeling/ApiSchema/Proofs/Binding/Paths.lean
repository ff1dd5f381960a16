import ApiSchema.Proofs.Binding.Situated

/-!
# Paths of namespaces

The namespaces around a symbol are found by following parents, and their names make up its path.
Here paths are related to tables. If no namespace shares its path with something else, then every
namespace is found in the table of its scope; hence a file has at most one symbol for a path, and
the tables that can be reached from the table of a file are those of the namespaces that stand in
it.
-/

namespace ApiSchema

open Option

variable {n file : NodeId} {id outer : SymbolId} {i : Symbol.Identity}
  {scope owner scope' : BindingScope} {name : String}

theorem Tree.isNamespace_iff {tree : Tree} :
    tree.isNamespace n = true ↔ ∃ parts, tree.kind? n = some (.namespaceStatement parts) := by
  rw [Tree.isNamespace]
  cases tree.kind? n with
  | none => simp
  | some kind => cases kind <;> simp

namespace Bindings

variable {tree : Tree} {b b' : Bindings}

/-- A symbol and the namespaces around it, innermost first, at most `depth` of them. -/
def outwardWithin (b : Bindings) : Nat → SymbolId → List SymbolId
  | 0, _ => []
  | depth + 1, id => id :: match (b.symbol? id).bind Symbol.parent with
    | none => []
    | some outer => b.outwardWithin depth outer

/-- A symbol and the namespaces around it, innermost first. A namespace has a smaller identifier
than what it contains. -/
def outward (b : Bindings) (id : SymbolId) : List SymbolId := b.outwardWithin (id.index + 1) id

/-- The name of a symbol and the names of the namespaces around it, innermost first. -/
def path (b : Bindings) (id : SymbolId) : List String :=
  (b.outward id).filterMap fun symbol => (b.symbol? symbol).map Symbol.name

/-- No namespace has its name and the namespace around it, in whatever file, in common with
something else. Template parameters belong to their declarations. -/
def Unambiguous (b : Bindings) : Prop :=
  ∀ symbol ∈ b.symbols.rows.toList, ∀ other ∈ b.symbols.rows.toList,
    symbol.kind = .namespaceKind → other.kind ≠ .namespaceKind → other.kind ≠ .templateParameter →
    symbol.name = other.name → symbol.parent.map b.path ≠ other.parent.map b.path

instance (b : Bindings) : Decidable b.Unambiguous :=
  inferInstanceAs (Decidable (∀ symbol ∈ b.symbols.rows.toList, _))

theorem exists_symbol (h : b.identity? id = some i) :
    ∃ symbol, b.symbol? id = some symbol ∧ symbol.identity = i :=
  map_eq_some_iff.mp h

/-! ### The namespaces around a symbol -/

namespace Situated

variable (h : Situated tree b)

include h

theorem outwardWithin_stable {d e : Nat} (hd : id.index < d) (he : id.index < e) :
    b.outwardWithin d id = b.outwardWithin e id := by
  induction d generalizing id e with
  | zero => exact absurd hd (Nat.not_lt_zero _)
  | succ d ih =>
    obtain ⟨e, rfl⟩ : ∃ e', e = e' + 1 := ⟨e - 1, by omega⟩
    rw [outwardWithin, outwardWithin]
    cases hpar : (b.symbol? id).bind Symbol.parent with
    | none => rfl
    | some outer =>
      obtain ⟨symbol, hsym, hsymPar⟩ := bind_eq_some_iff.mp hpar
      have hident : b.identity? id = some symbol.identity := by rw [identity?, hsym]; rfl
      have hlt := (h.parent hident hsymPar).1
      simp only [List.cons.injEq, true_and]
      exact ih (by omega) (by omega)

theorem outward_of_parent (hid : b.identity? id = some i) (hpar : i.parent = some outer) :
    b.outward id = id :: b.outward outer := by
  obtain ⟨symbol, hsym, rfl⟩ := exists_symbol hid
  have hsymPar : (b.symbol? id).bind Symbol.parent = some outer := by
    rw [hsym]
    exact hpar
  rw [outward, outwardWithin, hsymPar, outward]
  simp only [List.cons.injEq, true_and]
  exact h.outwardWithin_stable (h.parent hid hpar).1 (Nat.lt_succ_self _)

theorem outward_global : b.outward globalSymbol = [globalSymbol] := by
  obtain ⟨symbol, hsym, hident⟩ := exists_symbol h.global_identity
  have hsymPar : (b.symbol? globalSymbol).bind Symbol.parent = none := by
    rw [hsym]
    exact congrArg Symbol.Identity.parent hident
  rw [outward, outwardWithin, hsymPar]

theorem path_of_parent (hid : b.identity? id = some i) (hpar : i.parent = some outer) :
    b.path id = i.name :: b.path outer := by
  obtain ⟨symbol, hsym, rfl⟩ := exists_symbol hid
  rw [path, h.outward_of_parent hid hpar, List.filterMap_cons_some (by rw [hsym]; rfl)]
  rfl

theorem path_global : b.path globalSymbol = [""] := by
  obtain ⟨symbol, hsym, hident⟩ := exists_symbol h.global_identity
  have hname : symbol.name = "" := congrArg Symbol.Identity.name hident
  rw [path, h.outward_global, List.filterMap_cons_some (by rw [hsym]; rfl), hname]
  rfl

theorem path_ne_nil (hid : b.identity? id = some i) :
    b.path id ≠ [] := by
  cases hpar : i.parent with
  | none =>
    rw [h.root hid hpar, h.path_global]
    simp
  | some outer =>
    rw [h.path_of_parent hid hpar]
    simp

/-- Only the global namespace has its path. -/
theorem eq_global_of_path (hid : b.identity? id = some i) (hpath : b.path id = b.path globalSymbol) :
    id = globalSymbol := by
  cases hpar : i.parent with
  | none => exact h.root hid hpar
  | some outer =>
    obtain ⟨-, houter⟩ := h.parent hid hpar
    obtain ⟨j, hj, -⟩ := isNamespace_iff.mp houter
    rw [h.path_of_parent hid hpar, h.path_global, List.cons.injEq] at hpath
    exact absurd hpath.2 (h.path_ne_nil hj)

end Situated

/-! ### Tables without ambiguous names -/

theorem Consistent.kind_of_binding (h : Consistent tree b)
    (hentry : b.binding? scope name = some id) (hid : b.identity? id = some i) :
    i.kind ≠ .templateParameter := by
  obtain ⟨table, htable, hfind⟩ := bind_eq_some_iff.mp hentry
  obtain ⟨kind, declarations, hprof, hkind⟩ : b.Shared id := by
    cases scope with
    | file file => exact h.fileExports htable hfind
    | namespaceScope owner => exact h.exports htable hfind
  obtain ⟨symbol, hsym, rfl⟩ := exists_symbol hid
  rw [profile?, hsym] at hprof
  cases hprof
  exact hkind

/-- A namespace and something else in a table have different names or stand in namespaces with
different paths. -/
theorem Unambiguous.isNamespace (hclear : b.Unambiguous) (h : Situated tree b)
    (hb : Consistent tree b) {other owner : SymbolId} (hid : b.identity? id = some i)
    (hkind : i.kind = .namespaceKind) (hname : i.name = name) (hpar : i.parent = some owner)
    (hother : b.binding? scope name = some other) (hpath : b.path owner = b.path scope.owner) :
    b.isNamespace other = true := by
  obtain ⟨j, hj, hotherName, hotherPar, -⟩ := h.entry hother
  obtain ⟨symbol, hsym, rfl⟩ := exists_symbol hid
  obtain ⟨otherSymbol, hotherSymbol, rfl⟩ := exists_symbol hj
  by_contra hnot
  refine hclear symbol (Array.mem_of_getElem? hsym).val otherSymbol
    (Array.mem_of_getElem? hotherSymbol).val hkind (fun heq => ?_) (hb.kind_of_binding hother hj) (hname.trans hotherName.symm) ?_
  · exact hnot (isNamespace_iff.mpr ⟨_, hj, heq⟩)
  · rw [show symbol.parent = some owner from hpar,
      show otherSymbol.parent = some scope.owner from hotherPar, map_some,
      map_some, hpath]

/-- A namespace is found in the table of its scope. -/
theorem Site.binding {nodeKind : NodeKind} (hsite : Site tree b n scope nodeKind i id)
    (hclear : b.Unambiguous) (h : Situated tree b) (hb : Consistent tree b)
    (hkind : i.kind = .namespaceKind) : b.binding? scope i.name = some id := by
  obtain ⟨other, hother, rfl | hnot⟩ := hsite.found hkind
  · exact hother
  · have := hclear.isNamespace h hb hsite.identity hkind rfl hsite.parent hother rfl
    simp [hnot] at this

/-! ### The tables of a file -/

/-- No symbol is in two tables. -/
def Unshared (b : Bindings) : Prop :=
  ∀ ⦃scope scope' : BindingScope⦄ ⦃name name' : String⦄ ⦃id : SymbolId⦄,
    b.binding? scope name = some id → b.binding? scope' name' = some id → scope = scope'

/-- A fresh entry is the only one of its symbol. -/
theorem Unshared.of_entries (h : Unshared b) (hsit : Situated tree b) {key : String}
    (hentry : ∀ scope name, b'.binding? scope name =
      if scope = owner ∧ name = key then (b.binding? owner key).or (some b.symbols.nextId)
      else b.binding? scope name) :
    Unshared b' := by
  -- The only new entry has a symbol that no table had.
  have hnew : ∀ {scope name id}, b'.binding? scope name = some id →
      b.binding? scope name = some id ∨ scope = owner ∧ id = b.symbols.nextId := by
    intro scope name id hid
    rw [hentry] at hid
    split at hid
    next heq =>
      rcases or_eq_some_iff.mp hid with hid | ⟨-, hid⟩
      · exact .inl (heq.1 ▸ heq.2 ▸ hid)
      · exact .inr ⟨heq.1, (Option.some.inj hid).symm⟩
    · exact .inl hid
  have hold : ∀ {scope name id}, b.binding? scope name = some id → id ≠ b.symbols.nextId := by
    intro scope name id hid
    obtain ⟨i, hi, -⟩ := hsit.entry hid
    exact ne_nextId hi
  intro scope scope' name name' id hid hid'
  rcases hnew hid with hid | ⟨rfl, hnext⟩ <;> rcases hnew hid' with hid' | ⟨rfl, hnext'⟩
  · exact h hid hid'
  · exact absurd hnext' (hold hid)
  · exact absurd hnext (hold hid')
  · rfl

/-- No step enters a symbol twice. -/
theorem Unshared.step (h : Unshared b) (hsit : Situated tree b) (hc : tree.Complete)
    (hstep : Step tree b b') : Unshared b' := by
  have hsame : ∀ {b' : Bindings}, (∀ scope name, b'.binding? scope name = b.binding? scope name) →
      Unshared b' := by
    intro b' hentry scope scope' name name' id hid hid'
    exact h ((hentry _ _).symm.trans hid) ((hentry _ _).symm.trans hid')
  cases hstep with
  | declared hscope =>
    exact h.of_entries hsit (binding?_withDeclaration (hsit.exports_owner hc hscope) _ _ _)
  | decorator howner =>
    exact h.of_entries hsit (binding?_withDecorator
      (hsit.exports (hsit.isNamespace_decoratorOwner hc howner)) _)
  | reopened =>
    refine hsame fun scope name => binding?_congr ?_ (exports?_withReopening _ _ _) name
    rfl
  | parameter => exact hsame (binding?_withParameter _ _ _)
  | file => exact hsame (binding?_openFile _)
  | located | scope | opened | noted => exact hsame fun _ _ => rfl

/-- The tables that can be reached from the table of a file. -/
inductive Inside (b : Bindings) (file : NodeId) : BindingScope → Prop
  | file : Inside b file (.file file)
  | nested {scope : BindingScope} {name : String} {id : SymbolId} : Inside b file scope →
    b.binding? scope name = some id → b.isNamespace id = true →
    Inside b file (.namespaceScope id)

/-- A table is inside one file at most. -/
theorem Inside.file_unique {file' : NodeId} (h : Inside b file scope) (hunshared : Unshared b)
    (h' : Inside b file' scope) : file = file' := by
  induction h with
  | file =>
    cases h'
    rfl
  | nested _ hid _ ih =>
    cases h' with
    | nested hscope' hid' =>
      obtain rfl := hunshared hid hid'
      exact ih hscope'

/-- A file has at most one table for a path. -/
theorem Inside.eq_of_path (h : Inside b file scope) (hsit : Situated tree b)
    (h' : Inside b file scope') (hpath : b.path scope.owner = b.path scope'.owner) :
    scope = scope' := by
  have hnested : ∀ {scope : BindingScope} {name : String} {id : SymbolId},
      b.binding? scope name = some id → b.path id ≠ b.path globalSymbol := by
    intro scope name id hid heq
    obtain ⟨i, hi, -, hpar, -⟩ := hsit.entry hid
    obtain rfl := hsit.eq_global_of_path hi heq
    obtain rfl := mem_unique hsit.global_identity hi
    simp at hpar
  induction h generalizing scope' with
  | file =>
    cases h' with
    | file => rfl
    | nested _ hid' => exact absurd hpath.symm (hnested hid')
  | @nested scope name id _ hid _ ih =>
    cases h' with
    | file => exact absurd hpath (hnested hid)
    | @nested scope' name' id' hscope' hid' =>
      obtain ⟨i, hi, rfl, hpar, -⟩ := hsit.entry hid
      obtain ⟨i', hi', rfl, hpar', -⟩ := hsit.entry hid'
      have hpaths : i.name :: b.path scope.owner = i'.name :: b.path scope'.owner := by
        rw [← hsit.path_of_parent hi hpar, ← hsit.path_of_parent hi' hpar']
        exact hpath
      obtain ⟨hname, hrest⟩ := List.cons.inj hpaths
      obtain rfl := ih hscope' hrest
      rw [hname] at hid
      exact congrArg _ (mem_unique hid hid')

section

variable (hclear : b.Unambiguous) (hc : tree.Complete) (h : Situated tree b)
  (hb : Consistent tree b)

include hclear hc h hb

/-- The table of a namespace statement is inside its file. -/
theorem inside_of_node {parts : NamespaceNode} (hn : b.symbolOf? n = some id)
    (hkind : tree.kind? n = some (.namespaceStatement parts)) (hne : n ≠ Tree.globalNamespace)
    (hfile : file ∈ tree.files) (haround : file ∈ tree.selfAndAncestors n) :
    Inside b file (.namespaceScope id) := by
  -- The namespace around a namespace has a smaller symbol.
  induction hindex : id.index using Nat.strongRecOn generalizing n id parts with
  | ind index ih =>
    obtain ⟨scope, i, hsite⟩ := h.site_of_namespace hc hn hkind hne
    have hns : i.kind = .namespaceKind := (Option.some.inj hsite.symbolKind).symm
    have howner : scope.owner.index < index := by
      rw [← hindex]
      exact (h.parent hsite.identity hsite.parent).1
    have hnot : n ≠ file := by
      rintro rfl
      obtain ⟨-, _, _, hother⟩ := hc.file_root hfile
      simp [hkind] at hother
    have hpar : ∀ {m}, tree.parent? n = some m → file ∈ tree.selfAndAncestors m := by
      intro m hm
      rw [hc.selfAndAncestors_of_parent hm, List.mem_cons] at haround
      exact haround.resolve_left (Ne.symm hnot)
    have hroot : ∀ {other}, other ∈ tree.files → tree.parent? n = some other → other = file := by
      intro other hother hm
      have hmem := hpar hm
      rw [Tree.selfAndAncestors, Tree.WellFormed.ancestors_of_root (hc.file_root hother).1,
        List.mem_singleton] at hmem
      exact hmem.symm
    refine .nested ?_ (hsite.binding hclear h hb hns) (isNamespace_iff.mpr ⟨i, hsite.identity, hns⟩)
    cases hsite.scopes with
    | intrinsic hmem =>
      obtain ⟨name, hname⟩ := hc.intrinsics hmem
      simp [hkind] at hname
    | file hother hstmts =>
      obtain rfl := hroot hother (hc.parent_of_mem (by
        simp [Tree.children, hstmts]))
      exact .file
    | @captured other _ m _ before _ symbol hother hstmts hcaptor hm =>
      obtain rfl := hroot hother (hc.parent_of_mem (by
        simp [Tree.children, hstmts]))
      obtain ⟨⟨outer, houter, -⟩, statement, hstmt, hinside⟩ := hc.captor?_spec hcaptor
      have hstmtPar : tree.parent? statement = some other := hc.parent_of_mem (by
        simp [Tree.children, hstmts, hstmt])
      have hmem : other ∈ tree.selfAndAncestors m := hc.selfAndAncestors_trans hinside
        (hc.parent_mem_selfAndAncestors hstmtPar)
      exact ih _ howner hm houter (hc.ne_global hstmtPar hinside) hmem rfl
    | @block _ m outer symbol houter _ hmem hm =>
      have hn := hc.parent_of_statement houter hmem
      have hmne : m ≠ Tree.globalNamespace := by
        rintro rfl
        obtain ⟨name, hname⟩ := hc.intrinsics (hc.mem_of_parent hn)
        simp [hkind] at hname
      exact ih _ howner hm houter hmne (hpar hn) rfl

/-- The tables inside a file, apart from its own, are those of the namespace statements in it. -/
theorem exists_node_of_inside (hunshared : Unshared b)
    (hinside : Inside b file (.namespaceScope id)) : ∃ n parts, b.symbolOf? n = some id ∧
      tree.kind? n = some (.namespaceStatement parts) ∧ file ∈ tree.selfAndAncestors n := by
  have hreached := hinside
  cases hreached with
  | @nested scope name _ _ hid hns =>
    obtain ⟨i, hi, -, hpar, hnode⟩ := h.entry hid
    obtain ⟨j, hj, hnsKind⟩ := isNamespace_iff.mp hns
    obtain rfl := mem_unique hi hj
    obtain ⟨n, hn, -⟩ := hnode hnsKind
    have hne : n ≠ Tree.globalNamespace := by
      rintro rfl
      obtain rfl := mem_unique h.global_node hn
      obtain rfl := mem_unique h.global_identity hi
      simp at hpar
    obtain ⟨parts, hkind⟩ : ∃ parts, tree.kind? n = some (.namespaceStatement parts) := by
      rcases h.site hn with heq | ⟨_, nodeKind, k, hsite⟩ | ⟨_, _, k, -, -, hk, hkind⟩
      · exact absurd heq hne
      · obtain rfl := mem_unique hi hsite.identity
        have hsymKind := hsite.symbolKind
        have hnKind := hsite.kind
        rw [hnsKind] at hsymKind
        cases nodeKind <;> simp_all
      · obtain rfl := mem_unique hi hk
        simp [hnsKind] at hkind
    obtain ⟨other, hother, haround⟩ := h.exists_file hc hn hkind hne
    obtain rfl := hinside.file_unique hunshared
      (inside_of_node hclear hc h hb hn hkind hne hother haround)
    exact ⟨n, parts, hn, hkind, haround⟩

end

end Bindings

/-- No symbol of a program is in two tables. -/
theorem Program.bindings_unshared (program : Program) (hc : program.tree.Complete) :
    Bindings.Unshared program.bindings := by
  have hboth : Bindings.Situated program.tree program.bindings ∧
      Bindings.Unshared program.bindings := by
    refine Bindings.preserves_of_step (P := fun b => Bindings.Situated program.tree b ∧
      Bindings.Unshared b) (fun hstep h => ?_) (program.bindings_builds hc).builds.steps ?_
    · exact ⟨h.1.step hc hstep, h.2.step h.1 hc hstep⟩
    · exact ⟨Bindings.global_situated, fun _ _ _ _ _ hid => by
        simp [Bindings.binding?_global] at hid⟩
  exact hboth.2

end ApiSchema
