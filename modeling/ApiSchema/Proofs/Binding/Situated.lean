import ApiSchema.Proofs.Binding.Steps

/-!
# Symbols have their places

A symbol keeps the name, the kind and the parent that it was made with. Here it is shown where the
symbols of a program stand: parents are namespaces and come first, what a table holds belongs to the
namespace of the table and is held under its own name, and a node belongs to the namespace of its
scope, which is the parent of its symbol. A namespace is found in the table of its scope, unless
something else had its name before.
-/

namespace ApiSchema

open Option

variable {id owner : SymbolId} {f : Symbol → Symbol} {scope : BindingScope} {n node : NodeId}
  {parts : NamespaceNode} {name : String}

/-- What never changes about a symbol. -/
structure Symbol.Identity where
  name : String
  kind : SymbolKind
  /-- The namespace that the symbol belongs to. -/
  parent : Option SymbolId
  deriving DecidableEq

def Symbol.identity (symbol : Symbol) : Symbol.Identity := ⟨symbol.name, symbol.kind, symbol.parent⟩

namespace Bindings

variable {tree : Tree} {b b' : Bindings}

/-! ### Identities -/

def identity? (b : Bindings) (id : SymbolId) : Option Symbol.Identity :=
  (b.symbol? id).map Symbol.identity

/-- Namespaces are told by their kind. -/
theorem isNamespace_iff :
    b.isNamespace id = true ↔ ∃ i, b.identity? id = some i ∧ i.kind = .namespaceKind := by
  cases hid : b.symbol? id <;>
    simp [isNamespace, identity?, hid, Symbol.isNamespace, Symbol.identity]

/-- What keeps its identity stays a namespace. -/
theorem isNamespace_congr (h : b'.identity? id = b.identity? id) :
    b'.isNamespace id = b.isNamespace id := by
  rw [Bool.eq_iff_iff, isNamespace_iff, isNamespace_iff, h]

/-- What has an identity is in the table. -/
theorem index_lt_size {i : Symbol.Identity} (h : b.identity? id = some i) :
    id.index < b.symbols.size := by
  by_contra hge
  have hnone : b.symbols.get? id = none := Table.get?_eq_none_iff.mpr (Nat.le_of_not_lt hge)
  simp [identity?, symbol?, hnone] at h

/-- What has an identity is not new. -/
theorem ne_nextId {i : Symbol.Identity} (h : b.identity? id = some i) :
    id ≠ b.symbols.nextId := by
  rintro rfl
  simp [identity?, symbol?] at h

/-- A new symbol has the identity that it is made with. -/
theorem identity?_push (symbol : Symbol) (id : SymbolId) :
    ({ b with symbols := b.symbols.push symbol } : Bindings).identity? id =
      if id = b.symbols.nextId then some symbol.identity else b.identity? id := by
  simp only [identity?, symbol?, Table.get?_push, ← Table.eq_nextId_iff]
  split <;> rfl

/-- A change that keeps identities keeps them all. -/
theorem identity?_modifySymbol (hf : ∀ s, (f s).identity = s.identity) (id other : SymbolId) :
    (b.modifySymbol id f).identity? other = b.identity? other := by
  simp only [identity?, symbol?, modifySymbol, Table.get?_modify]
  split
  · cases b.symbols.get? other with
    | none => rfl
    | some symbol => simp [hf]
  · rfl

/-! ### Entries -/

/-- The symbol that a scope has under a name. -/
def binding? (b : Bindings) (scope : BindingScope) (name : String) : Option SymbolId :=
  (b.scopeTable? scope).bind fun table => table.find? name

/-- Entries are kept if the tables are. -/
theorem binding?_congr (hfile : b'.fileExports = b.fileExports)
    (hexp : ∀ id, b'.exports? id = b.exports? id) (name : String) :
    b'.binding? scope name = b.binding? scope name := by
  cases scope with
  | file file => rw [binding?, binding?, scopeTable?, scopeTable?, hfile]
  | namespaceScope owner => rw [binding?, binding?, scopeTable?, scopeTable?, hexp]

/-- The symbol of a node is in no table. -/
theorem binding?_recordNode (node : NodeId) (symbol : SymbolId) (scope : BindingScope)
    (name : String) : (b.recordNode node symbol).binding? scope name = b.binding? scope name :=
  binding?_congr rfl (fun _ => rfl) name

/-- The namespace of a node is in no table. -/
theorem binding?_recordNamespace (node : NodeId) (owner : SymbolId) (scope : BindingScope)
    (name : String) : (b.recordNamespace node owner).binding? scope name = b.binding? scope name :=
  binding?_congr rfl (fun _ => rfl) name

/-- A new symbol has no names yet. -/
theorem binding?_push (name : String) (kind : SymbolKind) (declarations : List NodeId)
    (parent : Option SymbolId) (scope : BindingScope) (key : String) :
    ({ b with symbols := b.symbols.push (.make name kind declarations parent) } :
      Bindings).binding? scope key = b.binding? scope key := by
  cases scope with
  | file file => rfl
  | namespaceScope owner =>
    simp only [binding?, scopeTable?, exports?, symbol?, Table.get?_push]
    split
    next heq =>
      have hnone : b.symbols.get? owner = none := by
        rw [Table.eq_nextId_iff.mpr heq, Table.get?_nextId]
      rw [hnone]
      cases kind <;> rfl
    · rfl

/-- Old symbols keep their tables. -/
theorem exports?_push_of_ne (symbol : Symbol) (h : id ≠ b.symbols.nextId) :
    ({ b with symbols := b.symbols.push symbol } : Bindings).exports? id = b.exports? id := by
  rw [exports?_push_eq, if_neg h]

/-- What has a table is not new. -/
theorem ne_nextId_of_exports (h : (b.exports? id).isSome = true) :
    id ≠ b.symbols.nextId := by
  rintro rfl
  simp [exports?, symbol?] at h

/-- A claim adds no tables. -/
theorem isSome_exports?_claim (scope : BindingScope) (name : String) (symbol id : SymbolId) :
    ((b.claim scope name symbol).exports? id).isSome = (b.exports? id).isSome := by
  cases scope with
  | file file => rfl
  | namespaceScope owner =>
    rw [claim, exports?_modifyExports_eq]
    split <;> simp

/-- A claim changes the table of its scope only. -/
theorem scopeTable?_claim
    (hopen : ∀ owner, scope = .namespaceScope owner → (b.exports? owner).isSome = true)
    (name : String) (symbol : SymbolId) (other : BindingScope) :
    (b.claim scope name symbol).scopeTable? other =
      if other = scope then some (((b.scopeTable? scope).getD .empty).set name symbol)
      else b.scopeTable? other := by
  cases scope with
  | file file =>
    cases other with
    | namespaceScope owner => rfl
    | file file' =>
      simp only [scopeTable?, claim, OrderedMap.find?_insert, BindingScope.file.injEq]
  | namespaceScope owner =>
    obtain ⟨table, htable⟩ := isSome_iff_exists.mp (hopen owner rfl)
    cases other with
    | file file => rfl
    | namespaceScope owner' =>
      simp only [scopeTable?, claim, exports?_modifyExports_eq, BindingScope.namespaceScope.injEq]
      split
      next heq =>
        rw [heq, htable]
        rfl
      · rfl

/-- The first claim to a name in a scope counts. -/
theorem binding?_claim
    (hopen : ∀ owner, scope = .namespaceScope owner → (b.exports? owner).isSome = true)
    (name : String) (symbol : SymbolId) (other : BindingScope) (key : String) :
    (b.claim scope name symbol).binding? other key =
      if other = scope ∧ key = name then (b.binding? scope name).or (some symbol)
      else b.binding? other key := by
  rw [binding?, scopeTable?_claim hopen]
  by_cases heq : other = scope
  · subst heq
    rw [if_pos rfl, bind_some, SymbolTable.find?_set_eq]
    have hempty : SymbolTable.empty.find? = fun _ => none := rfl
    cases htable : b.scopeTable? other <;> simp [binding?, htable, hempty]
  · simp [heq, binding?]

/-! ### What the steps do -/

/-- A claim changes no identities. -/
theorem identity?_claim (scope : BindingScope) (name : String) (symbol id : SymbolId) :
    (b.claim scope name symbol).identity? id = b.identity? id := by
  cases scope with
  | file file => rfl
  | namespaceScope owner =>
    rw [claim, modifyExports, identity?_modifySymbol]
    exact fun _ => rfl

/-- What is declared belongs to the namespace of its scope. -/
theorem identity?_withDeclaration (scope : BindingScope) (name : String) (kind : SymbolKind)
    (node : NodeId) (id : SymbolId) :
    (b.withDeclaration scope name kind node).identity? id =
      if id = b.symbols.nextId then some ⟨name, kind, some scope.owner⟩ else b.identity? id :=
  (identity?_claim scope name _ id).trans (identity?_push _ id)

/-- The node of a declaration belongs to the namespace of its scope. -/
theorem namespaceOf?_withDeclaration (scope : BindingScope) (name : String) (kind : SymbolKind)
    (node n : NodeId) :
    (b.withDeclaration scope name kind node).namespaceOf? n =
      if n = node then some scope.owner else b.namespaceOf? n := by
  have hclaim : (b.withDeclaration scope name kind node).namespaceOf? n =
      (b.recordNamespace node scope.owner).namespaceOf? n := by
    cases scope <;> rfl
  rw [hclaim]
  exact OrderedMap.find?_insert _ _ _ _

/-- Only a namespace comes with a table. -/
theorem isSome_exports?_withDeclaration (scope : BindingScope) (name : String) (kind : SymbolKind)
    (node : NodeId) (id : SymbolId) :
    ((b.withDeclaration scope name kind node).exports? id).isSome =
      if id = b.symbols.nextId then decide (kind = .namespaceKind) else (b.exports? id).isSome := by
  refine (isSome_exports?_claim scope name _ id).trans
    ((congrArg isSome (exports?_push_eq _ id)).trans ?_)
  change (if id = b.symbols.nextId then _ else b.exports? id).isSome = _
  split
  · cases kind <;> rfl
  · rfl

/-- A declaration has its name, unless something else has it. -/
theorem binding?_withDeclaration
    (hopen : ∀ owner, scope = .namespaceScope owner → (b.exports? owner).isSome = true)
    (name : String) (kind : SymbolKind) (node : NodeId) (other : BindingScope) (key : String) :
    (b.withDeclaration scope name kind node).binding? other key =
      if other = scope ∧ key = name then (b.binding? scope name).or (some b.symbols.nextId)
      else b.binding? other key := by
  change (Bindings.claim (Bindings.recordNode _ node _) scope name _).binding? other key = _
  rw [binding?_claim fun owner hscope => ?_]
  · simp only [binding?_recordNode, binding?_push, binding?_recordNamespace]
    rfl
  · have howner := hopen owner hscope
    exact (congrArg isSome (exports?_push_of_ne _ (ne_nextId_of_exports howner))).trans
      howner

/-- A namespace that is opened again keeps its identity. -/
theorem identity?_withReopening (scope : BindingScope) (existing : SymbolId) (node : NodeId)
    (id : SymbolId) : (b.withReopening scope existing node).identity? id = b.identity? id := by
  change ((b.recordNamespace node scope.owner).modifySymbol existing _).identity? id = _
  rw [identity?_modifySymbol]
  · rfl
  · exact fun _ => rfl

/-- A namespace that is opened again keeps its table. -/
theorem exports?_withReopening (scope : BindingScope) (existing : SymbolId) (node : NodeId)
    (id : SymbolId) : (b.withReopening scope existing node).exports? id = b.exports? id := by
  change ((b.recordNamespace node scope.owner).modifySymbol existing _).exports? id = _
  rw [exports?_modifySymbol]
  · rfl
  · exact fun _ => rfl

/-- A template parameter belongs to the namespace of its declaration. -/
theorem identity?_withParameter (declaration p : NodeId) (name : String) (id : SymbolId) :
    (b.withParameter declaration p name).identity? id =
      if id = b.symbols.nextId then some ⟨name, .templateParameter, b.namespaceOf? declaration⟩
      else b.identity? id :=
  identity?_push _ id

/-- A template parameter is in no table of a scope. -/
theorem binding?_withParameter (declaration p : NodeId) (name : String) (scope : BindingScope)
    (key : String) :
    (b.withParameter declaration p name).binding? scope key = b.binding? scope key := by
  refine (binding?_congr ?_ (fun _ => ?_) key).trans
    (binding?_push name .templateParameter [p] (b.namespaceOf? declaration) scope key)
  · rfl
  · rfl

/-- A decorator belongs to its namespace. -/
theorem identity?_withDecorator (owner : SymbolId) (path : String) (id : SymbolId) :
    (b.withDecorator owner path).identity? id =
      if id = b.symbols.nextId then
        some ⟨decoratorKey (DottedPath.lastSegment path), .decorator path, some owner⟩
      else b.identity? id := by
  rw [withDecorator, modifyExports, identity?_modifySymbol]
  · exact identity?_push _ id
  · exact fun _ => rfl

/-- A decorator has its name, unless another one has it. -/
theorem binding?_withDecorator (hopen : (b.exports? owner).isSome = true) (path : String)
    (scope : BindingScope) (key : String) :
    (b.withDecorator owner path).binding? scope key =
      if scope = .namespaceScope owner ∧ key = decoratorKey (DottedPath.lastSegment path) then
        (b.binding? (.namespaceScope owner) (decoratorKey (DottedPath.lastSegment path))).or
          (some b.symbols.nextId)
      else b.binding? scope key := by
  change (Bindings.claim _ (.namespaceScope owner) _ _).binding? scope key = _
  rw [binding?_claim fun owner' hscope => ?_, binding?_push, binding?_push]
  obtain rfl := BindingScope.namespaceScope.inj hscope
  exact (congrArg isSome (exports?_push_of_ne _ (ne_nextId_of_exports hopen))).trans hopen

/-- A file begins with an empty table. -/
theorem binding?_openFile (file : NodeId) (scope : BindingScope) (key : String) :
    ({ b with fileExports := b.fileExports.insertIfNew file .empty } : Bindings).binding? scope key =
      b.binding? scope key := by
  cases scope with
  | namespaceScope owner => rfl
  | file file' =>
    simp only [binding?, scopeTable?, OrderedMap.insertIfNew]
    split
    · rfl
    next hnew =>
      rw [OrderedMap.find?_insert]
      split
      next heq =>
        have hnone : b.fileExports.find? file' = none := by
          simpa [OrderedMap.contains, heq] using hnew
        rw [hnone]
        rfl
      · rfl

/-! ### Places -/

/-- The place of a declaration: its scope, which says what namespace it belongs to, and what its
symbol is. A namespace is found in the table of its scope, unless something else has the name. -/
structure Site (tree : Tree) (b : Bindings) (n : NodeId) (scope : BindingScope) (nodeKind : NodeKind)
    (i : Symbol.Identity) (id : SymbolId) : Prop where
  kind : tree.kind? n = some nodeKind
  scopes : Scopes tree b scope n
  located : b.namespaceOf? n = some scope.owner
  identity : b.identity? id = some i
  symbolKind : nodeKind.symbolKind? = some i.kind
  name : nodeKind.declaredName? = some i.name
  parent : i.parent = some scope.owner
  found : i.kind = .namespaceKind →
    ∃ other, b.binding? scope i.name = some other ∧ (other = id ∨ b.isNamespace other = false)

/-- A symbol is held under its own name, in a table of the namespace that it belongs to. -/
def Held (tree : Tree) (b : Bindings) (scope : BindingScope) (name : String) (id : SymbolId) : Prop :=
  ∃ i, b.identity? id = some i ∧ i.name = name ∧ i.parent = some scope.owner ∧
    (i.kind = .namespaceKind → ∃ n, b.symbolOf? n = some id ∧ Scopes tree b scope n)

/-- A node with a symbol is a declaration in its place or a template parameter of one. -/
def Placed (tree : Tree) (b : Bindings) (n : NodeId) (id : SymbolId) : Prop :=
  (∃ scope nodeKind i, Site tree b n scope nodeKind i id) ∨
    ∃ declaration outer i, n ∈ tree.templateParameters declaration ∧
      b.symbolOf? declaration = some outer ∧ b.identity? id = some i ∧ i.kind = .templateParameter

/-- Symbols stand where they belong. -/
structure Situated (tree : Tree) (b : Bindings) : Prop where
  global_node : b.symbolOf? Tree.globalNamespace = some globalSymbol
  global_identity : b.identity? globalSymbol = some ⟨"", .namespaceKind, none⟩
  exports {id : SymbolId} : b.isNamespace id = true → (b.exports? id).isSome = true
  parent {id outer : SymbolId} {i : Symbol.Identity} : b.identity? id = some i →
    i.parent = some outer → outer.index < id.index ∧ b.isNamespace outer = true
  root {id : SymbolId} {i : Symbol.Identity} : b.identity? id = some i → i.parent = none →
    id = globalSymbol
  entry {scope : BindingScope} {name : String} {id : SymbolId} : b.binding? scope name = some id →
    Held tree b scope name id
  site {n : NodeId} {id : SymbolId} : b.symbolOf? n = some id →
    n = Tree.globalNamespace ∨ Placed tree b n id

namespace Situated

variable (h : Situated tree b)

include h

/-- What a scope has comes after its namespace. -/
theorem index_owner_lt (hid : b.binding? scope name = some id) :
    scope.owner.index < id.index ∧ id.index < b.symbols.size := by
  obtain ⟨i, hi, -, hpar, -⟩ := h.entry hid
  exact ⟨(h.parent hi hpar).1, index_lt_size hi⟩

/-- The symbol of a namespace statement is a namespace. -/
theorem isNamespace_of_node (hc : tree.Complete)
    (hkind : tree.kind? n = some (.namespaceStatement parts)) (hn : b.symbolOf? n = some id) :
    b.isNamespace id = true := by
  rcases h.site hn with rfl | ⟨scope, nodeKind, i, hsite⟩ | ⟨declaration, outer, i, hmem, -⟩
  · obtain rfl := mem_unique h.global_node hn
    exact isNamespace_iff.mpr ⟨_, h.global_identity, rfl⟩
  · obtain rfl := mem_unique hsite.kind hkind
    exact isNamespace_iff.mpr ⟨i, hsite.identity, (some.inj hsite.symbolKind).symm⟩
  · obtain ⟨name, hname⟩ := hc.exists_parameter_name hmem
    simp [hkind] at hname

/-- Declarations go to namespaces. -/
theorem isNamespace_owner (hc : tree.Complete) (hscope : Scopes tree b scope n) :
    b.isNamespace scope.owner = true := by
  have hglobal : b.isNamespace globalSymbol = true :=
    isNamespace_iff.mpr ⟨_, h.global_identity, rfl⟩
  cases hscope with
  | intrinsic | file => exact hglobal
  | captured _ _ hcaptor hm =>
    obtain ⟨⟨parts, hkind, -⟩, -⟩ := hc.captor?_spec hcaptor
    exact h.isNamespace_of_node hc hkind hm
  | block hkind _ _ hm => exact h.isNamespace_of_node hc hkind hm

/-- Only the global namespace has the symbol of the global namespace. -/
theorem eq_global_of_node (hn : b.symbolOf? n = some globalSymbol) :
    n = Tree.globalNamespace := by
  rcases h.site hn with hglobal | ⟨scope, nodeKind, i, hsite⟩ | ⟨_, _, i, -, -, hi, hkind⟩
  · exact hglobal
  · obtain rfl := mem_unique h.global_identity hsite.identity
    simpa using hsite.parent
  · obtain rfl := mem_unique h.global_identity hi
    simp at hkind

section

variable (hc : tree.Complete)

include hc

/-- The global namespace itself declares intrinsic types and no namespaces. -/
theorem intrinsic_of_global_scope (hscope : Scopes tree b (.namespaceScope globalSymbol) n) :
    n ∈ tree.children Tree.globalNamespace := by
  cases hscope with
  | intrinsic hn => exact hn
  | @captured file _ _ _ _ _ _ _ hkind hcaptor hm =>
    obtain rfl := h.eq_global_of_node hm
    obtain ⟨-, statement, hstmt, hinside⟩ := hc.captor?_spec hcaptor
    have hpar : tree.parent? statement = some file := hc.parent_of_mem
      (by simp [Tree.children, hkind, hstmt])
    exact absurd rfl (hc.ne_global hpar hinside)
  | block hkind _ hn hm =>
    obtain rfl := h.eq_global_of_node hm
    exact hc.mem_of_parent (hc.parent_of_statement hkind hn)

/-- The global namespace itself has no namespaces in its table. -/
theorem isNamespace_global_entry (hid : b.binding? (.namespaceScope globalSymbol) name = some id) :
    b.isNamespace id = false := by
  rw [Bool.eq_false_iff]
  intro hns
  obtain ⟨i, hi, hkind⟩ := isNamespace_iff.mp hns
  obtain ⟨j, hj, -, hpar, hnode⟩ := h.entry hid
  obtain rfl := mem_unique hi hj
  obtain ⟨n, hn, hscope⟩ := hnode hkind
  obtain ⟨name, hintr⟩ := hc.intrinsics (h.intrinsic_of_global_scope hc hscope)
  rcases h.site hn with rfl | ⟨scope, nodeKind, j, hsite⟩ | ⟨declaration, _, _, hmem, -⟩
  · obtain ⟨-, parts, hglobal⟩ := hc.global_root
    simp [hglobal] at hintr
  · obtain rfl := mem_unique hsite.kind hintr
    obtain rfl := mem_unique hi hsite.identity
    have hsymKind := hsite.symbolKind
    rw [hkind] at hsymKind
    simp at hsymKind
  · obtain ⟨parameter, hparam⟩ := hc.exists_parameter_name hmem
    simp [hintr] at hparam

/-- What is no template parameter has a site. -/
theorem site_of_kind {kind : NodeKind} (hn : b.symbolOf? n = some id)
    (hkind : tree.kind? n = some kind) (hne : n ≠ Tree.globalNamespace)
    (hnot : ∀ name, kind ≠ .templateParameterDeclaration name) :
    ∃ scope i, Site tree b n scope kind i id := by
  rcases h.site hn with rfl | ⟨scope, nodeKind, i, hsite⟩ | ⟨declaration, _, _, hmem, -⟩
  · exact absurd rfl hne
  · obtain rfl := mem_unique hsite.kind hkind
    exact ⟨scope, i, hsite⟩
  · obtain ⟨name, hname⟩ := hc.exists_parameter_name hmem
    exact absurd (mem_unique hkind hname) (hnot name)

/-- A namespace has a site. -/
theorem site_of_namespace (hn : b.symbolOf? n = some id)
    (hkind : tree.kind? n = some (.namespaceStatement parts)) (hne : n ≠ Tree.globalNamespace) :
    ∃ scope i, Site tree b n scope (.namespaceStatement parts) i id :=
  h.site_of_kind hc hn hkind hne nofun

section

variable (hscopes : Scopes tree b scope n)
  (hintr : ∀ name, tree.kind? n ≠ some (.intrinsicStatement name))

include hscopes hintr

/-- What is declared, the intrinsic types apart, stands in some statement of a file. -/
theorem exists_statement :
    ∃ file ∈ tree.files, ∃ statement, tree.parent? statement = some file ∧
      statement ∈ tree.selfAndAncestors n := by
  induction n using hc.upward_induction generalizing scope with
  | step n ih =>
    cases hscopes with
    | intrinsic hmem =>
      obtain ⟨name, hname⟩ := hc.intrinsics hmem
      exact absurd hname (hintr name)
    | file hfile hkind | captured hfile hkind =>
      refine ⟨_, hfile, n, hc.parent_of_mem ?_, List.mem_cons_self⟩
      simp [Tree.children, hkind]
    | @block _ m parts symbol hkind _ hmem hm =>
      have hn := hc.parent_of_statement hkind hmem
      have hne : m ≠ Tree.globalNamespace := by
        rintro rfl
        obtain ⟨name, hname⟩ := hc.intrinsics (hc.mem_of_parent hn)
        exact hintr name hname
      obtain ⟨outer, i, hsite⟩ := h.site_of_namespace hc hm hkind hne
      obtain ⟨file, hfile, statement, hpar, haround⟩ :=
        ih m hn hsite.scopes (by simp [hkind])
      refine ⟨file, hfile, statement, hpar, ?_⟩
      rw [hc.selfAndAncestors_of_parent hn]
      exact .tail _ haround

/-- What is declared, the intrinsic types apart, stands in a file. -/
theorem exists_file_of_scopes :
    ∃ file ∈ tree.files, file ∈ tree.selfAndAncestors n := by
  obtain ⟨file, hfile, statement, hpar, haround⟩ := h.exists_statement hc hscopes hintr
  exact ⟨file, hfile, hc.selfAndAncestors_trans haround (hc.parent_mem_selfAndAncestors hpar)⟩

end

/-- A namespace that is bound stands in one of the files. -/
theorem exists_file (hn : b.symbolOf? n = some id)
    (hkind : tree.kind? n = some (.namespaceStatement parts)) (hne : n ≠ Tree.globalNamespace) :
    ∃ file ∈ tree.files, file ∈ tree.selfAndAncestors n := by
  obtain ⟨scope, i, hsite⟩ := h.site_of_namespace hc hn hkind hne
  exact h.exists_file_of_scopes hc hsite.scopes (by simp [hkind])

/-- The namespace of a scope has a table. -/
theorem exports_owner (hscope : Scopes tree b scope n) (owner : SymbolId)
    (howner : scope = .namespaceScope owner) :
    (b.exports? owner).isSome = true := by
  subst howner
  exact h.exports (h.isNamespace_owner hc hscope)

end

/-- What has been placed stays where it is while symbols, nodes and entries are added, if what is
new is in its place too. -/
theorem grow (hsymOf : ∀ {n id}, b.symbolOf? n = some id → b'.symbolOf? n = some id)
    (hident : ∀ {id i}, b.identity? id = some i → b'.identity? id = some i)
    (hentry : ∀ {scope name id}, b.binding? scope name = some id → b'.binding? scope name = some id)
    (hloc : ∀ {n scope}, Scopes tree b scope n → (b.symbolOf? n).isSome = true →
      b'.namespaceOf? n = b.namespaceOf? n)
    (hexp : ∀ {id}, b'.isNamespace id = true → b.isNamespace id = true ∨
      (b'.exports? id).isSome = true)
    (hkept : ∀ {id}, (b.exports? id).isSome = true → (b'.exports? id).isSome = true)
    (hnew : ∀ {id i}, b'.identity? id = some i → b.identity? id = some i ∨
      id = b.symbols.nextId ∧ ∃ outer, i.parent = some outer ∧ b.isNamespace outer = true)
    (hent : ∀ {scope name id}, b'.binding? scope name = some id →
      b.binding? scope name = some id ∨ Held tree b' scope name id)
    (hsite : ∀ {n id}, b'.symbolOf? n = some id →
      b.symbolOf? n = some id ∨ Placed tree b' n id) :
    Situated tree b' := by
  have hns : ∀ {id}, b.isNamespace id = true → b'.isNamespace id = true := by
    intro id hid
    obtain ⟨i, hi, hkind⟩ := isNamespace_iff.mp hid
    exact isNamespace_iff.mpr ⟨i, hident hi, hkind⟩
  refine ⟨hsymOf h.global_node, hident h.global_identity, ?_, ?_, ?_, ?_, ?_⟩
  · intro id hid
    rcases hexp hid with hold | hsome
    · exact hkept (h.exports hold)
    · exact hsome
  · intro id outer i hid hpar
    rcases hnew hid with hold | ⟨rfl, outer', hpar', houter⟩
    · obtain ⟨hlt, houter⟩ := h.parent hold hpar
      exact ⟨hlt, hns houter⟩
    · obtain rfl := mem_unique hpar hpar'
      obtain ⟨j, hj, -⟩ := isNamespace_iff.mp houter
      exact ⟨index_lt_size hj, hns houter⟩
  · intro id i hid hpar
    rcases hnew hid with hold | ⟨-, outer, hpar', -⟩
    · exact h.root hold hpar
    · simp [hpar] at hpar'
  · intro scope name id hid
    rcases hent hid with hold | hnewEntry
    · obtain ⟨i, hi, hname, hpar, hnode⟩ := h.entry hold
      refine ⟨i, hident hi, hname, hpar, fun hkind => ?_⟩
      obtain ⟨n, hn, hscope⟩ := hnode hkind
      exact ⟨n, hsymOf hn, hscope.mono hsymOf⟩
    · exact hnewEntry
  · intro n id hn
    rcases hsite hn with hold | hnewSite
    · rcases h.site hold with hglobal | ⟨scope, nodeKind, i, hold'⟩ |
        ⟨declaration, outer, i, hmem, houter, hi, hkind⟩
      · exact .inl hglobal
      · refine .inr (.inl ⟨scope, nodeKind, i, hold'.kind, hold'.scopes.mono hsymOf, ?_,
          hident hold'.identity, hold'.symbolKind, hold'.name, hold'.parent, fun hkind => ?_⟩)
        · rw [hloc hold'.scopes (by simp [hold]), hold'.located]
        · obtain ⟨other, hother, hsame⟩ := hold'.found hkind
          refine ⟨other, hentry hother, hsame.imp_right fun hnot => ?_⟩
          obtain ⟨j, hj, -⟩ := h.entry hother
          rw [isNamespace_congr ((hident hj).trans hj.symm), hnot]
      · exact .inr (.inr ⟨declaration, outer, i, hmem, hsymOf houter, hident hi, hkind⟩)
    · exact .inr hnewSite

/-- So it is if there is one new symbol, which may be new in tables of the namespace that it belongs
to. -/
theorem add {i : Symbol.Identity} {outer : SymbolId}
    (hsymOf : ∀ {n id}, b.symbolOf? n = some id → b'.symbolOf? n = some id)
    (hloc : ∀ {n scope}, Scopes tree b scope n → (b.symbolOf? n).isSome = true →
      b'.namespaceOf? n = b.namespaceOf? n)
    (hident : ∀ id, b'.identity? id =
      if id = b.symbols.nextId then some i else b.identity? id)
    (hpar : i.parent = some outer) (houter : b.isNamespace outer = true)
    (hexp : ∀ id, (b'.exports? id).isSome =
      if id = b.symbols.nextId then decide (i.kind = .namespaceKind) else (b.exports? id).isSome)
    (hentry : ∀ scope name, b'.binding? scope name = b.binding? scope name ∨
      b.binding? scope name = none ∧ b'.binding? scope name = some b.symbols.nextId ∧
        name = i.name ∧ scope.owner = outer ∧ (i.kind = .namespaceKind →
          ∃ n, b'.symbolOf? n = some b.symbols.nextId ∧ Scopes tree b' scope n))
    (hsite : ∀ {n id}, b'.symbolOf? n = some id →
      b.symbolOf? n = some id ∨ Placed tree b' n id) :
    Situated tree b' := by
  have hnew : ∀ {id j}, b'.identity? id = some j →
      b.identity? id = some j ∨ id = b.symbols.nextId ∧ j = i := by
    intro id j hj
    rw [hident] at hj
    split at hj
    next heq => exact .inr ⟨heq, (some.inj hj).symm⟩
    · exact .inl hj
  refine h.grow hsymOf (fun hi => ?_) (fun {scope name id} hid => ?_) hloc
    (fun {id} hid => ?_) (fun hid => ?_) (fun hj => ?_) (fun {scope name id} hid => ?_) hsite
  · rw [hident, if_neg (ne_nextId hi), hi]
  · rcases hentry scope name with hsame | ⟨hnone, -⟩
    · exact hsame.trans hid
    · simp [hnone] at hid
  · obtain ⟨j, hj, hns⟩ := isNamespace_iff.mp hid
    rcases hnew hj with hold | ⟨heq, rfl⟩
    · exact .inl (isNamespace_iff.mpr ⟨j, hold, hns⟩)
    · rw [hexp, if_pos heq]
      exact .inr (decide_eq_true hns)
  · rw [hexp, if_neg (ne_nextId_of_exports hid), hid]
  · rcases hnew hj with hold | ⟨heq, rfl⟩
    · exact .inl hold
    · exact .inr ⟨heq, outer, hpar, houter⟩
  · rcases hentry scope name with hsame | ⟨-, hfound, rfl, rfl, hnode⟩
    · exact .inl (hsame.symm.trans hid)
    · obtain rfl := mem_unique hfound hid
      exact .inr ⟨i, (hident _).trans (if_pos rfl), rfl, hpar, hnode⟩

/-- Declarations keep symbols in their places. -/
theorem withDeclaration (hc : tree.Complete) {kind : SymbolKind} {nodeKind : NodeKind}
    (hkept : ∀ {n id}, b.symbolOf? n = some id →
      (b.withDeclaration scope name kind node).symbolOf? n = some id)
    (hscope : Scopes tree b scope node) (hkind : tree.kind? node = some nodeKind)
    (hsym : nodeKind.symbolKind? = some kind) (hname : nodeKind.declaredName? = some name)
    (hfresh : b.symbolOf? node = none)
    (hnew : kind = .namespaceKind → b.reopened? scope name = none) :
    Situated tree (b.withDeclaration scope name kind node) := by
  have hident := identity?_withDeclaration (b := b) scope name kind node
  have hsymOf := symbolOf?_withDeclaration (b := b) scope name kind node
  have hentry := binding?_withDeclaration (h.exports_owner hc hscope) name kind node
  have hscope' : Scopes tree (b.withDeclaration scope name kind node) scope node :=
    hscope.mono hkept
  refine h.add hkept (fun _ hn => ?_) hident rfl (h.isNamespace_owner hc hscope)
    (isSome_exports?_withDeclaration scope name kind node) (fun other key => ?_) (fun {n id} hn => ?_)
  · rw [namespaceOf?_withDeclaration, if_neg]
    rintro rfl
    simp [hfresh] at hn
  · rw [hentry]
    split
    next heq =>
      obtain ⟨rfl, rfl⟩ := heq
      cases b.binding? other key with
      | some id => exact .inl rfl
      | none =>
        exact .inr ⟨rfl, rfl, rfl, rfl, fun _ => ⟨node, (hsymOf _).trans (if_pos rfl), hscope'⟩⟩
    · exact .inl rfl
  · rw [hsymOf] at hn
    split at hn
    next heq =>
      subst heq
      obtain rfl := some.inj hn
      refine .inr (.inl ⟨scope, nodeKind, ⟨name, kind, some scope.owner⟩, hkind, hscope', ?_, ?_,
        hsym, hname, rfl, fun hns => ?_⟩)
      · rw [namespaceOf?_withDeclaration, if_pos rfl]
      · rw [hident, if_pos rfl]
      · have hnone := hnew hns
        rw [hentry, if_pos ⟨rfl, rfl⟩]
        cases hold : b.binding? scope name with
        | none => exact ⟨_, rfl, Or.inl rfl⟩
        | some other =>
          refine ⟨other, rfl, Or.inr ?_⟩
          obtain ⟨j, hj, -⟩ := h.entry hold
          rw [isNamespace_congr ((hident other).trans (if_neg (ne_nextId hj)))]
          have hfilter : (b.binding? scope name).filter b.isNamespace = none := hnone
          simpa [hold] using hfilter
    · exact .inl hn

/-- Namespaces that are opened again do. -/
theorem withReopening {existing : SymbolId}
    (hkept : ∀ {n id}, b.symbolOf? n = some id →
      (b.withReopening scope existing node).symbolOf? n = some id)
    (hscope : Scopes tree b scope node)
    (hkind : tree.kind? node = some (.namespaceStatement parts)) (hfresh : b.symbolOf? node = none)
    (hexist : b.reopened? scope parts.name = some existing) :
    Situated tree (b.withReopening scope existing node) := by
  have hident := identity?_withReopening (b := b) scope existing node
  have hexp := exports?_withReopening (b := b) scope existing node
  have hentry : ∀ other key,
      (b.withReopening scope existing node).binding? other key = b.binding? other key := by
    intro other key
    apply binding?_congr
    · rfl
    · exact hexp
  obtain ⟨hfound, hns⟩ := filter_eq_some_iff.mp hexist
  refine h.grow hkept (fun hi => (hident _).trans hi) (fun hid => (hentry _ _).trans hid)
    (fun _ hn => ?_) (fun hid => ?_) (fun hid => ?_) (fun hi => ?_) (fun hid => ?_)
    (fun {n id} hn => ?_)
  · refine (OrderedMap.find?_insert _ _ _ _).trans (if_neg ?_)
    rintro rfl
    simp [hfresh] at hn
  · rw [isNamespace_congr (hident _)] at hid
    exact .inl hid
  · rw [hexp, hid]
  · exact .inl ((hident _).symm.trans hi)
  · exact .inl ((hentry _ _).symm.trans hid)
  · rw [symbolOf?_withReopening] at hn
    split at hn
    next heq =>
      subst heq
      obtain rfl := some.inj hn
      obtain ⟨i, hi, hname, hpar, -⟩ := h.entry hfound
      obtain ⟨j, hj, hnsKind⟩ := isNamespace_iff.mp hns
      obtain rfl := mem_unique hi hj
      refine .inr (.inl ⟨scope, _, i, hkind, hscope.mono hkept, ?_, (hident _).trans hi, ?_, ?_,
        hpar, fun _ => ⟨existing, ?_, Or.inl rfl⟩⟩)
      · exact (OrderedMap.find?_insert _ _ _ _).trans (if_pos rfl)
      · rw [hnsKind]
        rfl
      · rw [hname]
        rfl
      · rw [hname]
        exact (hentry _ _).trans hfound
    · exact .inl hn

/-- Template parameters do. -/
theorem withParameter (hc : tree.Complete) {declaration p : NodeId} {outer : SymbolId}
    (hkept : ∀ {n id}, b.symbolOf? n = some id →
      (b.withParameter declaration p name).symbolOf? n = some id)
    (hmem : p ∈ tree.templateParameters declaration)
    (hdecn : b.symbolOf? declaration = some outer) :
    Situated tree (b.withParameter declaration p name) := by
  have hident := identity?_withParameter (b := b) declaration p name
  -- The declaration has parameters, so it is an ordinary one.
  obtain ⟨scope, nodeKind, i, hsite⟩ : ∃ scope nodeKind i,
      Site tree b declaration scope nodeKind i outer := by
    obtain ⟨kind, hkind, hparam⟩ := Tree.mem_templateParameters hmem
    rcases h.site hdecn with rfl | hsite | ⟨other, -, -, hother, -⟩
    · obtain ⟨-, parts, hglobal⟩ := hc.global_root
      obtain rfl := mem_unique hkind hglobal
      simp at hparam
    · exact hsite
    · obtain ⟨otherName, hname⟩ := hc.exists_parameter_name hother
      obtain rfl := mem_unique hkind hname
      simp at hparam
  refine h.add hkept (fun _ _ => rfl) hident hsite.located (h.isNamespace_owner hc hsite.scopes)
    (fun id => (congrArg isSome (exports?_push_eq _ id)).trans ?_)
    (fun scope key => .inl (binding?_withParameter declaration p name scope key))
    (fun {n id} hn => ?_)
  · split <;> rfl
  · rw [symbolOf?_withParameter] at hn
    split at hn
    next heq =>
      subst heq
      obtain rfl := some.inj hn
      exact .inr (.inr ⟨declaration, outer, _, hmem, hkept hdecn,
        (hident _).trans (if_pos rfl), rfl⟩)
    · exact .inl hn

/-- Decorators do. -/
theorem withDecorator (howner : b.isNamespace owner = true) (path : String) :
    Situated tree (b.withDecorator owner path) := by
  refine h.add id (fun _ _ => rfl) (identity?_withDecorator owner path) rfl howner (fun id => ?_)
    (fun scope name => ?_) Or.inl
  · refine (isSome_exports?_claim (.namespaceScope owner) _ b.symbols.nextId id).trans
      ((congrArg isSome (exports?_push_eq _ id)).trans ?_)
    split <;> rfl
  · rw [binding?_withDecorator (h.exports howner)]
    split
    next heq =>
      obtain ⟨rfl, rfl⟩ := heq
      cases b.binding? (.namespaceScope owner) (decoratorKey (DottedPath.lastSegment path)) with
      | some id => exact .inl rfl
      | none => exact .inr ⟨rfl, rfl, rfl, rfl, by simp⟩
    · exact .inl rfl

/-- Decorators belong to namespaces. -/
theorem isNamespace_decoratorOwner (hc : tree.Complete) {path : String}
    (howner : b.decoratorOwner? tree path = some owner) : b.isNamespace owner = true := by
  rw [decoratorOwner?] at howner
  split at howner
  · obtain rfl := some.inj howner
    exact isNamespace_iff.mpr ⟨_, h.global_identity, rfl⟩
  · obtain ⟨n, hn, hsym⟩ := bind_eq_some_iff.mp howner
    have hns := List.find?_some hn
    simp only [Bool.and_eq_true, Tree.isNamespace, any_eq_true] at hns
    obtain ⟨⟨⟨kind, hkind, hisNs⟩, -⟩, -⟩ := hns
    cases kind with
    | namespaceStatement parts => exact h.isNamespace_of_node hc hkind hsym
    | _ => simp at hisNs

/-- Every step keeps symbols in their places. -/
theorem step (hc : tree.Complete) (hstep : Step tree b b') : Situated tree b' := by
  have hkept : ∀ {n id}, b.symbolOf? n = some id → b'.symbolOf? n = some id := hstep.symbolOf?
  cases hstep with
  | declared hscope hkind hsym _ hname hfresh hnew =>
    exact h.withDeclaration hc hkept hscope hkind hsym hname hfresh hnew
  | reopened hscope hkind hfresh hexist =>
    exact h.withReopening hkept hscope hkind hfresh hexist
  | parameter hall _ _ hdecn _ => exact h.withParameter hc hkept (by simp [hall]) hdecn
  | @located node n parts owner hkind hn =>
    refine h.grow id id id (fun {m scope} hscope hm => ?_) Or.inl id Or.inl Or.inl Or.inl
    -- Operations of interfaces are no statements.
    have hne : m ≠ n := by
      rintro rfl
      have hpar : tree.parent? m = some node :=
        hc.parent_of_mem (by simp [Tree.children, hkind, hn])
      have hplaced := hscope.placed hc node _ hpar hkind
      simp at hplaced
    exact (OrderedMap.find?_insert _ _ _ _).trans (if_neg hne)
  | scope | opened | noted =>
    exact h.grow id id id (fun _ _ => rfl) Or.inl id Or.inl Or.inl Or.inl
  | file file =>
    exact h.grow id id (fun hid => (binding?_openFile file _ _).trans hid) (fun _ _ => rfl) Or.inl id
      Or.inl (fun hid => .inl ((binding?_openFile file _ _).symm.trans hid)) Or.inl
  | decorator howner => exact h.withDecorator (h.isNamespace_decoratorOwner hc howner) _

end Situated

/-- At first there is only the global namespace. -/
theorem eq_of_global_identity {i : Symbol.Identity} (hi : global.identity? id = some i) :
    id = globalSymbol ∧ i = ⟨"", .namespaceKind, none⟩ := by
  have hlt : id.index < 1 := index_lt_size hi
  obtain ⟨index⟩ := id
  obtain rfl : index = 0 := Nat.lt_one_iff.mp hlt
  exact ⟨rfl, (some.inj hi).symm⟩

/-- At first no table holds anything. -/
theorem binding?_global (scope : BindingScope) (name : String) :
    global.binding? scope name = none := by
  refine (binding?_recordNode _ _ scope name).trans ((binding?_push _ _ _ _ scope name).trans ?_)
  cases scope <;> rfl

/-- The global namespace is in its place. -/
theorem global_situated : Situated tree global := by
  refine ⟨rfl, rfl, fun {id} hid => ?_, fun hi hpar => ?_, fun hi _ => (eq_of_global_identity hi).1,
    fun {scope name id} hid => ?_, fun {n id} hn => ?_⟩
  · obtain ⟨i, hi, -⟩ := isNamespace_iff.mp hid
    rw [(eq_of_global_identity hi).1]
    rfl
  · rw [(eq_of_global_identity hi).2] at hpar
    simp at hpar
  · simp [binding?_global] at hid
  · by_cases heq : n = Tree.globalNamespace
    · exact .inl heq
    · rw [symbolOf?_global heq] at hn
      simp at hn

/-- Everything that is declared has its place. -/
theorem declaring_situated (hc : tree.Complete) (paths : List String) :
    Situated tree (declaring tree paths) :=
  preserves_of_step (fun hstep h => h.step hc hstep) (declaring_builds hc paths).builds.steps
    global_situated

end Bindings

theorem Program.bindings_situated (program : Program) (hc : program.tree.Complete) :
    Bindings.Situated program.tree program.bindings :=
  Bindings.declaring_situated hc program.registry.paths

end ApiSchema
