import ApiSchema.Proofs.Binding.Program
import ApiSchema.Program
import Mathlib.Logic.Relation

/-!
# The steps of binding

Binding a program is a sequence of small steps: a declaration gets a symbol in the table of its
scope, a namespace is opened again, a template parameter becomes a local name, and so on. `Step`
says everything that a step can do and what is known at that moment, most of all how the scope of a
declaration follows from its place: it is the namespace around it, or the file, or the blockless
namespace that was met last in the file. Invariants of bindings are shown step by step.

A statement is bound when nothing inside it has a symbol yet, and binding it gives symbols to nodes
inside it only; statements of one scope have no nodes in common, so that none is bound twice.
-/

namespace ApiSchema

open Option List

variable {nodes before after statements : List NodeId} {m statement root file node : NodeId}
  {symbol : SymbolId} {name : String} {kind : SymbolKind} {nodeKind : NodeKind}
  {scope : BindingScope} {n : NodeId} {tree : Tree}

namespace Tree

/-- The last blockless namespace that is met in a statement, with namespaces nested up to `depth`
deep. -/
def captorWithin (tree : Tree) : Nat → NodeId → Option NodeId
  | 0, _ => none
  | depth + 1, statement =>
    match tree.kind? statement with
    | some (.namespaceStatement parts) =>
      if parts.blockless then some statement
      else parts.statements.foldl (fun found inner => (tree.captorWithin depth inner).or found) none
    | _ => none

/-- The last blockless namespace that is met in statements of a file. What follows them belongs to
it. -/
def captor? (tree : Tree) (statements : List NodeId) : Option NodeId :=
  statements.foldl (fun found statement => (tree.captorWithin tree.size statement).or found) none

/-- A later statement captures what follows, if it captures anything. -/
theorem captor?_append_singleton (tree : Tree) (statements : List NodeId) (statement : NodeId) :
    tree.captor? (statements ++ [statement]) =
      (tree.captorWithin tree.size statement).or (tree.captor? statements) := by
  simp [captor?, foldl_append]

/-- The last answer comes from a member of the list. -/
theorem exists_of_foldl_or {f : NodeId → Option NodeId} {found : Option NodeId}
    (h : nodes.foldl (fun found n => (f n).or found) found = some m) :
    found = some m ∨ ∃ n ∈ nodes, f n = some m := by
  induction nodes generalizing found with
  | nil => exact .inl h
  | cons n rest ih =>
    rcases ih h with hhead | ⟨n', hn', hm⟩
    · rcases or_eq_some_iff.mp hhead with hn | ⟨-, hfound⟩
      · exact .inr ⟨n, mem_cons_self, hn⟩
      · exact .inl hfound
    · exact .inr ⟨n', mem_cons_of_mem _ hn', hm⟩

/-- What captures is a blockless namespace in the statement. -/
theorem WellFormed.captorWithin_spec (hwf : tree.WellFormed) {depth : Nat}
    (h : tree.captorWithin depth statement = some m) :
    (∃ parts, tree.kind? m = some (.namespaceStatement parts) ∧ parts.blockless = true) ∧
      statement ∈ tree.selfAndAncestors m := by
  induction depth generalizing statement with
  | zero => simp [captorWithin] at h
  | succ depth ih =>
    rw [captorWithin] at h
    split at h
    next parts hkind =>
      split at h
      next hless =>
        obtain rfl := some.inj h
        exact ⟨⟨parts, hkind, hless⟩, mem_cons_self⟩
      · obtain ⟨inner, hinner, hm⟩ := (exists_of_foldl_or h).resolve_left (by simp)
        obtain ⟨hparts, hmem⟩ := ih hm
        exact ⟨hparts, hwf.selfAndAncestors_trans hmem
          (hwf.parent_mem_selfAndAncestors (hwf.parent_of_statement hkind hinner))⟩
    · simp at h

/-- What captures is a blockless namespace in one of the statements. -/
theorem WellFormed.captor?_spec (hwf : tree.WellFormed) (h : tree.captor? statements = some m) :
    (∃ parts, tree.kind? m = some (.namespaceStatement parts) ∧ parts.blockless = true) ∧
      ∃ statement ∈ statements, statement ∈ tree.selfAndAncestors m := by
  obtain ⟨statement, hmem, hm⟩ := (exists_of_foldl_or h).resolve_left (by simp)
  obtain ⟨hparts, hinside⟩ := hwf.captorWithin_spec hm
  exact ⟨hparts, statement, hmem, hinside⟩

end Tree

namespace Bindings

variable {tree : Tree} {b b' b'' start : Bindings}

/-! ### Scopes -/

/-- The scope that the declaration of a statement goes to. -/
inductive Scopes (tree : Tree) (b : Bindings) : BindingScope → NodeId → Prop
  /-- The intrinsic types are declared in the global namespace. -/
  | intrinsic {n : NodeId} : n ∈ tree.children Tree.globalNamespace →
    Scopes tree b (.namespaceScope globalSymbol) n
  /-- No blockless namespace stands before the statement in its file. -/
  | file {file n : NodeId} {name : String} {before after : List NodeId} : file ∈ tree.files →
    tree.kind? file = some (.sourceFile name (before ++ n :: after)) →
    tree.captor? before = none → Scopes tree b (.file file) n
  /-- The statement follows a blockless namespace in its file. -/
  | captured {file n m : NodeId} {name : String} {before after : List NodeId} {symbol : SymbolId} :
    file ∈ tree.files → tree.kind? file = some (.sourceFile name (before ++ n :: after)) →
    tree.captor? before = some m → b.symbolOf? m = some symbol →
    Scopes tree b (.namespaceScope symbol) n
  /-- The statement stands in the block of a namespace. -/
  | block {n m : NodeId} {parts : NamespaceNode} {symbol : SymbolId} :
    tree.kind? m = some (.namespaceStatement parts) → parts.blockless = false →
    n ∈ parts.statements → b.symbolOf? m = some symbol → Scopes tree b (.namespaceScope symbol) n

namespace Scopes

/-- The scope stays the same when more nodes get symbols. -/
theorem mono (h : Scopes tree b scope n)
    (hkept : ∀ {m symbol}, b.symbolOf? m = some symbol → b'.symbolOf? m = some symbol) :
    Scopes tree b' scope n := by
  cases h with
  | intrinsic hn => exact .intrinsic hn
  | file hfile hkind hcaptor => exact .file hfile hkind hcaptor
  | captured hfile hkind hcaptor hm => exact .captured hfile hkind hcaptor (hkept hm)
  | block hkind hblock hn hm => exact .block hkind hblock hn (hkept hm)

/-- Declarations stand in files and in namespaces. -/
theorem exists_parent (h : Scopes tree b scope n) (hc : tree.Complete) :
    ∃ m outer, tree.parent? n = some m ∧ tree.kind? m = some outer ∧ outer.isScope = true := by
  cases h with
  | intrinsic hn =>
    obtain ⟨-, parts, hkind⟩ := hc.global_root
    exact ⟨_, _, hc.parent_of_mem hn, hkind, rfl⟩
  | file hfile hkind | captured hfile hkind =>
    exact ⟨_, _, hc.parent_of_mem (by simp [Tree.children, hkind]), hkind, rfl⟩
  | block hkind _ hn => exact ⟨_, _, hc.parent_of_statement hkind hn, hkind, rfl⟩

/-- Declarations stand in scopes only. -/
theorem placed (h : Scopes tree b scope n) (hc : tree.Complete) (m : NodeId) (outer : NodeKind)
    (hm : tree.parent? n = some m) (houter : tree.kind? m = some outer) : outer.isScope = true := by
  obtain ⟨m', outer', hm', houter', hscope⟩ := h.exists_parent hc
  obtain rfl := mem_unique hm' hm
  obtain rfl := mem_unique houter' houter
  exact hscope

end Scopes

/-! ### Steps -/

/-- A new symbol for a node, in the table of a scope. -/
def withDeclaration (b : Bindings) (scope : BindingScope) (name : String) (kind : SymbolKind)
    (node : NodeId) : Bindings :=
  (declareNew scope name kind node (b.recordNamespace node scope.owner)).2

/-- One more declaration of a namespace. -/
def withReopening (b : Bindings) (scope : BindingScope) (existing : SymbolId) (node : NodeId) :
    Bindings :=
  ((b.recordNamespace node scope.owner).modifySymbol existing fun symbol =>
    { symbol with declarations := symbol.declarations ++ [node] }).recordNode node existing

/-- A new symbol for a template parameter, among the local names of its declaration. -/
def withParameter (b : Bindings) (declaration p : NodeId) (name : String) : Bindings :=
  (({ b with
    symbols := b.symbols.push (.make name .templateParameter [p] (b.namespaceOf? declaration)) } :
      Bindings).recordNode p b.symbols.nextId).modifyLocals declaration fun table =>
    table.set name b.symbols.nextId

/-- One step of binding. -/
inductive Step (tree : Tree) : Bindings → Bindings → Prop
  | declared {b : Bindings} {scope : BindingScope} {name : String} {kind : SymbolKind}
    {node : NodeId} {nodeKind : NodeKind} : Scopes tree b scope node →
    tree.kind? node = some nodeKind → nodeKind.symbolKind? = some kind →
    kind ≠ .templateParameter → nodeKind.declaredName? = some name → b.symbolOf? node = none →
    (kind = .namespaceKind → b.reopened? scope name = none) →
    Step tree b (b.withDeclaration scope name kind node)
  | reopened {b : Bindings} {scope : BindingScope} {parts : NamespaceNode} {node : NodeId}
    {existing : SymbolId} : Scopes tree b scope node →
    tree.kind? node = some (.namespaceStatement parts) → b.symbolOf? node = none →
    b.reopened? scope parts.name = some existing → Step tree b (b.withReopening scope existing node)
  | parameter {b : Bindings} {declaration p : NodeId} {name : String} {symbol : SymbolId}
    {before after : List NodeId} : tree.templateParameters declaration = before ++ p :: after →
    tree.kind? p = some (.templateParameterDeclaration name) → b.symbolOf? p = none →
    b.symbolOf? declaration = some symbol → (∀ q ∈ before, ∃ id, b.symbolOf? q = some id) →
    Step tree b (b.withParameter declaration p name)
  | located {b : Bindings} {node n : NodeId} {parts : InterfaceNode} (owner : SymbolId) :
    tree.kind? node = some (.interfaceStatement parts) → n ∈ parts.operations →
    Step tree b (b.recordNamespace n owner)
  | scope {b : Bindings} {node : NodeId} {kind : NodeKind} : tree.kind? node = some kind →
    kind.isScope = true → Step tree b (b.openLocals node)
  | file (b : Bindings) (file : NodeId) :
    Step tree b { b with fileExports := b.fileExports.insertIfNew file .empty }
  | opened (b : Bindings) (openNamespaces : OrderedMap NodeId (List NodeId)) :
    Step tree b { b with openNamespaces }
  | noted {b : Bindings} {node target : NodeId} : tree.kind? node = some (.usingStatement target) →
    Step tree b { b with usings := b.usings ++ [node] }
  | decorator {b : Bindings} {owner : SymbolId} {path : String} :
    b.decoratorOwner? tree path = some owner → Step tree b (b.withDecorator owner path)

/-- A declaration gives a new symbol to its node. -/
theorem symbolOf?_withDeclaration (scope : BindingScope) (name : String) (kind : SymbolKind)
    (node n : NodeId) :
    (b.withDeclaration scope name kind node).symbolOf? n =
      if n = node then some b.symbols.nextId else b.symbolOf? n := by
  refine Eq.trans ?_ (symbolOf?_recordNode ..)
  cases scope <;> rfl

/-- A namespace that is opened again gives its symbol to the node. -/
theorem symbolOf?_withReopening (scope : BindingScope) (existing : SymbolId) (node n : NodeId) :
    (b.withReopening scope existing node).symbolOf? n =
      if n = node then some existing else b.symbolOf? n :=
  symbolOf?_recordNode _ _ _

/-- A template parameter gets a new symbol. -/
theorem symbolOf?_withParameter (declaration p : NodeId) (name : String) (n : NodeId) :
    (b.withParameter declaration p name).symbolOf? n =
      if n = p then some b.symbols.nextId else b.symbolOf? n :=
  symbolOf?_recordNode _ _ _

/-- Nodes keep the symbols that they have. -/
theorem Step.symbolOf? (h : Step tree b b') (hn : b.symbolOf? n = some symbol) :
    b'.symbolOf? n = some symbol := by
  have hne : ∀ {node}, b.symbolOf? node = none → n ≠ node := by
    rintro node hfresh rfl
    simp [hfresh] at hn
  cases h with
  | declared _ _ _ _ _ hfresh => rw [symbolOf?_withDeclaration, if_neg (hne hfresh), hn]
  | reopened _ _ hfresh => rw [symbolOf?_withReopening, if_neg (hne hfresh), hn]
  | parameter _ _ hfresh => rw [symbolOf?_withParameter, if_neg (hne hfresh), hn]
  | located | scope | file | opened | noted | decorator => exact hn

/-- Every step keeps bindings consistent. -/
theorem Step.consistent (h : Step tree b b') (hc : tree.Complete) (hb : Consistent tree b) :
    Consistent tree b' := by
  have hloc : ∀ node owner, Consistent tree (b.recordNamespace node owner) := fun _ _ =>
    hb.congr (fun _ => rfl) rfl hb.exports hb.fileExports hb.locals
  cases h with
  | @declared scope name kind node _ hscope hkind hsym hnot _ hfresh =>
    have hadded := (hloc node scope.owner).addDeclared name (some scope.owner) hfresh hkind
      hsym fun _ => hscope.placed hc
    exact hadded.claim ⟨kind, [node], (profile?_push _ _).trans (if_pos rfl), hnot⟩
  | @reopened scope _ node _ hscope hkind hfresh hexist =>
    rw [reopened?, filter_eq_some_iff] at hexist
    exact (hloc node scope.owner).reopen hexist.2 hfresh hkind (hscope.placed hc)
  | @parameter declaration p name _ _ _ hparams hkind hfresh =>
    have hadded := hb.addDeclared name (b.namespaceOf? declaration) hfresh hkind rfl
      fun hnot => absurd rfl hnot
    refine hadded.modifyLocals fun table key found hfound => ?_
    rcases SymbolTable.find?_set hfound with rfl | hfound
    · exact .inr (.inr ⟨p, by simp [hparams],
        (symbolOf?_recordNode _ _ _).trans (if_pos rfl)⟩)
    · exact .inl hfound
  | located owner => exact hloc _ owner
  | scope => exact hb.openLocals
  | file file => exact hb.openFile file
  | opened | noted => exact hb.congr (fun _ => rfl) rfl hb.exports hb.fileExports hb.locals
  | decorator => exact hb.withDecorator _ _

/-! ### Runs -/

/-- What every step preserves all steps preserve. -/
theorem preserves_of_step {P : Bindings → Prop} (hstep : ∀ {b b'}, Step tree b b' → P b → P b')
    (h : Relation.ReflTransGen (Step tree) b b') (hb : P b) : P b' := by
  induction h with
  | refl => exact hb
  | tail _ hlast ih => exact hstep hlast ih

/-- Nodes keep the symbols that they have. -/
theorem symbolOf?_of_steps (h : Relation.ReflTransGen (Step tree) b b')
    (hn : b.symbolOf? n = some symbol) : b'.symbolOf? n = some symbol :=
  preserves_of_step (P := fun b => b.symbolOf? n = some symbol) (fun hstep hb => hstep.symbolOf? hb)
    h hn

/-- Every template parameter of a bound declaration is bound. -/
def Whole (tree : Tree) (b : Bindings) : Prop :=
  ∀ {n : NodeId} {symbol : SymbolId}, b.symbolOf? n = some symbol →
    ∀ p ∈ tree.templateParameters n, ∃ id, b.symbolOf? p = some id

/-- The node has a symbol, if it declares something. -/
def Bound (tree : Tree) (b : Bindings) (n : NodeId) : Prop :=
  ∀ kind symbolKind, tree.kind? n = some kind → kind.symbolKind? = some symbolKind →
    symbolKind ≠ .templateParameter → ∃ id, b.symbolOf? n = some id

/-- The second bindings come from the first ones by steps. If no declaration was left without its
template parameters then none is, and a namespace with a block that got a symbol has its statements
bound. -/
structure Builds (tree : Tree) (b b' : Bindings) : Prop where
  steps : Relation.ReflTransGen (Step tree) b b'
  whole : Whole tree b → Whole tree b'
  inner {n : NodeId} {parts : NamespaceNode} : tree.kind? n = some (.namespaceStatement parts) →
    parts.blockless = false → (∃ id, b'.symbolOf? n = some id) →
    (∃ id, b.symbolOf? n = some id) ∨ ∀ m ∈ parts.statements, Bound tree b' m

namespace Builds

/-- Nothing has to be bound. -/
theorem refl (b : Bindings) : Builds tree b b := ⟨.refl, id, fun _ _ => .inl⟩

/-- Nodes keep the symbols that they have. -/
theorem symbolOf? (h : Builds tree b b') (hn : b.symbolOf? n = some symbol) :
    b'.symbolOf? n = some symbol :=
  symbolOf?_of_steps h.steps hn

/-- What is bound stays bound. -/
theorem bound (h : Builds tree b b') (hn : Bound tree b n) : Bound tree b' n := by
  intro kind symbolKind hkind hsymKind hnot
  obtain ⟨id, hid⟩ := hn kind symbolKind hkind hsymKind hnot
  exact ⟨id, h.symbolOf? hid⟩

/-- Steps follow steps. -/
theorem trans (h : Builds tree b b') (h' : Builds tree b' b'') : Builds tree b b'' := by
  refine ⟨h.steps.trans h'.steps, h'.whole ∘ h.whole, fun hkind hblock hn => ?_⟩
  rcases h'.inner hkind hblock hn with hn | hinner
  · exact (h.inner hkind hblock hn).imp_right fun hinner m hm => h'.bound (hinner m hm)
  · exact .inr hinner

/-- A step that gives no symbol. -/
theorem single (h : Step tree b b') (hsame : ∀ n, b'.symbolOf? n = b.symbolOf? n) :
    Builds tree b b' := by
  refine ⟨.single h, fun hwhole n symbol hn p hp => ?_, fun _ _ hn => .inl (hsame _ ▸ hn)⟩
  obtain ⟨id, hid⟩ := hwhole (hsame n ▸ hn) p hp
  exact ⟨id, h.symbolOf? hid⟩

/-- A step that gives a symbol to a node without template parameters, and what comes after it. The
statements inside the node, if it is a namespace with a block, are bound then. -/
theorem declared {node : NodeId} {symbol : SymbolId} (h : Step tree b b')
    (hsymOf : ∀ n, b'.symbolOf? n = if n = node then some symbol else b.symbolOf? n)
    (hnone : tree.templateParameters node = []) (hafter : Builds tree b' b'')
    (hinner : ∀ {parts}, tree.kind? node = some (.namespaceStatement parts) →
      parts.blockless = false → ∀ m ∈ parts.statements, Bound tree b'' m) :
    Builds tree b b'' := by
  refine ⟨.head h hafter.steps, fun hwhole => hafter.whole fun {n id} hn p hp => ?_,
    fun {n parts} hkind hblock hn => ?_⟩
  · rw [hsymOf] at hn
    split at hn
    next heq =>
      simp [heq, hnone] at hp
    · obtain ⟨id, hid⟩ := hwhole hn p hp
      exact ⟨id, h.symbolOf? hid⟩
  · rcases hafter.inner hkind hblock hn with ⟨id, hid⟩ | hbound
    · by_cases heq : n = node
      · subst heq
        exact .inr (hinner hkind hblock)
      · rw [hsymOf, if_neg heq] at hid
        exact .inl ⟨id, hid⟩
    · exact .inr hbound

end Builds

/-- No node inside `root` has a symbol. -/
def Fresh (tree : Tree) (root : NodeId) (b : Bindings) : Prop :=
  ∀ n, root ∈ tree.selfAndAncestors n → b.symbolOf? n = none

/-- A node is not outside itself. -/
theorem ne_of_outside (h : root ∉ tree.selfAndAncestors n) : n ≠ root :=
  fun heq => h (heq ▸ mem_cons_self)

/-- What is inside a node that is fresh is fresh. -/
theorem Fresh.inside (h : Fresh tree root b) (hwf : tree.WellFormed)
    (hn : root ∈ tree.selfAndAncestors n) : Fresh tree n b :=
  fun k hk => h k (hwf.selfAndAncestors_trans hk hn)

/-- Steps that give symbols only to nodes inside `root`. -/
structure BuildsIn (tree : Tree) (root : NodeId) (b b' : Bindings) : Prop
    extends Builds tree b b' where
  elsewhere {n : NodeId} : root ∉ tree.selfAndAncestors n → b'.symbolOf? n = b.symbolOf? n

/-- Steps that give no symbols are inside any node. -/
theorem Builds.within (h : Builds tree b b') (hsame : ∀ n, b'.symbolOf? n = b.symbolOf? n) :
    BuildsIn tree root b b' :=
  { h with elsewhere := fun _ => hsame _ }

/-- Steps inside a node follow each other. -/
theorem BuildsIn.trans (h : BuildsIn tree root b b') (h' : BuildsIn tree root b' b'') :
    BuildsIn tree root b b'' :=
  { h.toBuilds.trans h'.toBuilds with
    elsewhere := fun hn => (h'.elsewhere hn).trans (h.elsewhere hn) }

/-- What happens inside a node leaves its siblings alone. -/
theorem BuildsIn.fresh {sibling : NodeId} (hwf : tree.WellFormed) (h : BuildsIn tree root b b')
    (hp : tree.parent? root = tree.parent? sibling) (hne : root ≠ sibling)
    (hfresh : Fresh tree sibling b) : Fresh tree sibling b' := fun n hn => by
  rw [h.elsewhere fun hmem => hwf.not_mem_selfAndAncestors_of_sibling hp hne hmem hn, hfresh n hn]

/-! ### Loops -/

/-- A loop carries nothing along. -/
theorem state_forM (f : NodeId → StateM Bindings Unit) (nodes : List NodeId) (b : Bindings) :
    nodes.forM f b = nodes.foldlM (fun _ => f) () b := by
  induction nodes generalizing b with
  | nil => rfl
  | cons n rest ih => exact ih (f n b).2

/-- Siblings are bound one after the other, while `I` says what is carried along after those that
have been bound. -/
theorem foldlM_builds {γ : Type} (all before : List NodeId) {parent : Option NodeId}
    {f : γ → NodeId → StateM Bindings γ} {I : List NodeId → γ → Bindings → Prop}
    (hwf : tree.WellFormed) (hnodup : all.Nodup) (hpar : ∀ n ∈ all, tree.parent? n = parent)
    (hf : ∀ {before n after c b}, all = before ++ n :: after → Fresh tree n b → I before c b →
      BuildsIn tree n b (f c n b).2 ∧ I (before ++ [n]) (f c n b).1 (f c n b).2) {c : γ}
    (hall : all = before ++ nodes) (hfresh : ∀ n ∈ nodes, Fresh tree n b) (hI : I before c b)
    {result : γ × Bindings} (hrun : nodes.foldlM f c b = result) :
    Builds tree b result.2 ∧
      (∀ k, (∀ n ∈ all, n ∉ tree.selfAndAncestors k) → result.2.symbolOf? k = b.symbolOf? k) ∧
      I all result.1 result.2 := by
  subst hrun
  induction nodes generalizing before b c with
  | nil =>
    rw [append_nil] at hall
    exact ⟨.refl b, fun _ _ => rfl, hall ▸ hI⟩
  | cons n rest ih =>
    obtain ⟨hbuilds, hnext⟩ := hf hall (hfresh n (.head _)) hI
    have hmem : ∀ m ∈ n :: rest, m ∈ all := fun m hm => hall ▸ mem_append_right _ hm
    have hnot : n ∉ rest := by
      have hsub : (n :: rest).Nodup := (hall ▸ hnodup).sublist (sublist_append_right _ _)
      exact (nodup_cons.mp hsub).1
    have hrest : ∀ m ∈ rest, Fresh tree m (f c n b).2 := fun m hm =>
      hbuilds.fresh hwf
        ((hpar n (hmem n (.head _))).trans
          (hpar m (hmem m (.tail _ hm))).symm)
        (fun heq => hnot (heq ▸ hm)) (hfresh m (.tail _ hm))
    rw [foldlM_cons]
    obtain ⟨hlater, helse, hend⟩ := ih (before ++ [n]) (by simp [hall]) hrest hnext
    exact ⟨hbuilds.toBuilds.trans hlater, fun k hk => (helse k hk).trans
      (hbuilds.elsewhere (hk n (hmem n (.head _)))), hend⟩

/-! ### Declarations -/

/-- A declaration is a step, after which the node has the symbol that is answered. -/
theorem declare_step {result : SymbolId × Bindings} (hscope : Scopes tree b scope node)
    (hkind : tree.kind? node = some nodeKind) (hsym : nodeKind.symbolKind? = some kind)
    (hnot : kind ≠ .templateParameter) (hname : nodeKind.declaredName? = some name)
    (hfresh : b.symbolOf? node = none) (hrun : declare scope name kind node b = result) :
    Step tree b result.2 ∧
      (∀ n, result.2.symbolOf? n = if n = node then some result.1 else b.symbolOf? n) ∧
      result.2.openNamespaces = b.openNamespaces := by
  have hreopened : (b.recordNamespace node scope.owner).reopened? scope name =
      b.reopened? scope name := by
    cases scope <;> rfl
  by_cases hnew : kind = .namespaceKind → b.reopened? scope name = none
  · have hdecl : declare scope name kind node b =
        (b.symbols.nextId, b.withDeclaration scope name kind node) := by
      cases kind with
      | namespaceKind =>
        simp only [declare, state_bind, state_modify, state_get, hreopened, hnew rfl]
        rfl
      | _ => rfl
    obtain rfl := hdecl.symm.trans hrun
    exact ⟨.declared hscope hkind hsym hnot hname hfresh hnew, symbolOf?_withDeclaration _ _ _ _,
      by cases scope <;> rfl⟩
  · obtain ⟨rfl, hexists⟩ := Classical.not_imp.mp hnew
    obtain ⟨existing, hexist⟩ := ne_none_iff_exists'.mp hexists
    obtain ⟨parts, rfl⟩ : ∃ parts, nodeKind = .namespaceStatement parts := by
      cases nodeKind <;> simp_all
    obtain rfl : parts.name = name := some.inj hname
    simp only [declare, state_bind, state_modify, state_get, hreopened, hexist] at hrun
    subst hrun
    exact ⟨.reopened hscope hkind hfresh hexist, symbolOf?_withReopening _ _ _, rfl⟩

/-- Template parameters are bound one after the other, and nothing else gets a symbol. -/
theorem bindTemplateParameters_steps {declaration : NodeId} (before : List NodeId)
    (hwf : tree.WellFormed) (hall : tree.templateParameters declaration = before ++ nodes)
    (hdecn : b.symbolOf? declaration = some symbol)
    (hbefore : ∀ q ∈ before, ∃ id, b.symbolOf? q = some id)
    (hfresh : ∀ p ∈ nodes, b.symbolOf? p = none)
    (hrun : (bindTemplateParameters tree declaration nodes b).2 = b') :
    Relation.ReflTransGen (Step tree) b b' ∧
      (∀ q ∈ before ++ nodes, ∃ id, b'.symbolOf? q = some id) ∧
      (∀ n, n ∉ nodes → b'.symbolOf? n = b.symbolOf? n) ∧ b'.openNamespaces = b.openNamespaces := by
  subst hrun
  induction nodes generalizing before b with
  | nil => exact ⟨.refl, fun q hq => hbefore q (by simpa using hq), fun _ _ => rfl, rfl⟩
  | cons p rest ih =>
    have hp : p ∈ tree.templateParameters declaration := by simp [hall]
    obtain ⟨name, hkind⟩ := hwf.exists_parameter_name hp
    have hnot : p ∉ rest := by
      have hsub : (p :: rest).Nodup :=
        (hall ▸ hwf.parameters_nodup declaration).sublist (sublist_append_right _ _)
      exact (nodup_cons.mp hsub).1
    have hstep : Step tree b (b.withParameter declaration p name) :=
      .parameter hall hkind (hfresh p (.head _)) hdecn hbefore
    have hrun : bindTemplateParameters tree declaration (p :: rest) b =
        bindTemplateParameters tree declaration rest (b.withParameter declaration p name) := by
      simp only [bindTemplateParameters, List.forM, state_bind, hkind]
      rfl
    rw [hrun]
    obtain ⟨hsteps, hbound, helse, hopen⟩ := ih (before ++ [p]) (by simp [hall])
      (hstep.symbolOf? hdecn)
      (fun q hq => by
        rcases mem_append.mp hq with hq | hq
        · obtain ⟨id, hid⟩ := hbefore q hq
          exact ⟨id, hstep.symbolOf? hid⟩
        · rw [mem_singleton.mp hq, symbolOf?_withParameter, if_pos rfl]
          exact ⟨_, rfl⟩)
      (fun q hq => by
        have hne : q ≠ p := fun heq => hnot (heq ▸ hq)
        rw [symbolOf?_withParameter, if_neg hne]
        exact hfresh q (.tail _ hq))
    refine ⟨.head hstep hsteps, fun q hq => hbound q (by simpa using hq), fun n hn => ?_, hopen⟩
    rw [mem_cons, not_or] at hn
    rw [helse n hn.2, symbolOf?_withParameter, if_neg hn.1]

/-- Between the bindings a statement got a symbol, and nothing became implicitly open. -/
structure Declares (tree : Tree) (statement : NodeId) (b b' : Bindings) : Prop
    extends BuildsIn tree statement b b' where
  symbol : ∃ id, b'.symbolOf? statement = some id
  openNamespaces : b'.openNamespaces = b.openNamespaces

section

variable (hwf : tree.WellFormed) (hscope : Scopes tree b scope statement)
  (hkind : tree.kind? statement = some nodeKind) (hsym : nodeKind.symbolKind? = some kind)
  (hnot : kind ≠ .templateParameter) (hname : nodeKind.declaredName? = some name)
  (hfresh : Fresh tree statement b)

include hscope hkind hsym hnot hname hfresh

/-- A declaration without template parameters is one step. -/
theorem declare_declares (hnone : tree.templateParameters statement = [])
    (hless : ∀ parts, nodeKind = .namespaceStatement parts → parts.blockless = true) :
    Declares tree statement b (declare scope name kind statement b).2 := by
  obtain ⟨hstep, hsymOf, hopen⟩ := declare_step hscope hkind hsym hnot hname
    (hfresh statement (.head _)) rfl
  refine ⟨⟨.declared hstep hsymOf hnone (.refl _) fun {parts} hparts hblock => ?_, fun {n} hn => ?_⟩,
    ⟨_, (hsymOf statement).trans (if_pos rfl)⟩, hopen⟩
  · have htrue := hless parts (mem_unique hkind hparts)
    simp [hblock] at htrue
  · exact (hsymOf n).trans (if_neg (ne_of_outside hn))

include hwf

/-- A declaration that may have template parameters. -/
theorem declaration_declares (hplain : kind ≠ .namespaceKind)
    (hrun : (bindTemplateParameters tree statement nodeKind.templateParameters
      (declare scope name kind statement b).2).2 = b') : Declares tree statement b b' := by
  have hparams : tree.templateParameters statement = nodeKind.templateParameters := by
    simp [Tree.templateParameters, hkind]
  rw [← hparams] at hrun
  obtain ⟨hstep, hsymOf, hdecl⟩ := declare_step hscope hkind hsym hnot hname
    (hfresh statement (.head _)) rfl
  have hinside : ∀ p ∈ tree.templateParameters statement, statement ∈ tree.selfAndAncestors p :=
    fun p hp => hwf.parent_mem_selfAndAncestors (hwf.parameter_parent hp)
  have hparam : ∀ p ∈ tree.templateParameters statement, p ≠ statement ∧
      b.symbolOf? p = none := by
    refine fun p hp => ⟨fun heq => ?_, hfresh p (hinside p hp)⟩
    have hlt := hwf.lt_of_parent (hwf.parameter_parent hp)
    simp [heq] at hlt
  obtain ⟨hsteps, hbound, helse, hopen⟩ := bindTemplateParameters_steps [] hwf
    (nil_append _).symm ((hsymOf statement).trans (if_pos rfl)) (by simp)
    (fun p hp => by rw [hsymOf, if_neg (hparam p hp).1, (hparam p hp).2]) hrun
  refine ⟨⟨⟨.head hstep hsteps, fun hwhole n id hn p hp => ?_, fun {n parts} hnode _ hn => ?_⟩,
    fun {n} hn => ?_⟩, ⟨_, symbolOf?_of_steps hsteps ((hsymOf statement).trans (if_pos rfl))⟩,
    hopen.trans hdecl⟩
  · by_cases hmem : n ∈ tree.templateParameters statement
    · obtain ⟨parameter, hparamKind⟩ := hwf.exists_parameter_name hmem
      simp [Tree.templateParameters, hparamKind] at hp
    · rw [helse n hmem, hsymOf] at hn
      split at hn
      next heq =>
        exact hbound p (heq ▸ hp)
      · obtain ⟨old, hold⟩ := hwhole hn p hp
        exact ⟨old, symbolOf?_of_steps (.head hstep hsteps) hold⟩
  · have hmem : n ∉ tree.templateParameters statement := fun hmem => by
      obtain ⟨parameter, hparamKind⟩ := hwf.exists_parameter_name hmem
      simp [hparamKind] at hnode
    have hne : n ≠ statement := fun heq => by
      obtain rfl := mem_unique hkind (heq ▸ hnode)
      exact hplain (some.inj hsym).symm
    rw [helse n hmem, hsymOf, if_neg hne] at hn
    exact .inl hn
  · rw [helse n fun hmem => hn (hinside n hmem), hsymOf, if_neg (ne_of_outside hn)]

end

/-- The operations of an interface are located. -/
theorem Declares.recordNamespaces {parts : InterfaceNode} (owner : SymbolId)
    (hkind : tree.kind? statement = some (.interfaceStatement parts))
    (hnodes : nodes ⊆ parts.operations) (h : Declares tree statement b b') :
    Declares tree statement b (nodes.forM (fun node => modify fun b => b.recordNamespace node owner :
      NodeId → StateM Bindings PUnit) b').2 := by
  induction nodes generalizing b' with
  | nil => exact h
  | cons node rest ih =>
    have hstep : Step tree b' (b'.recordNamespace node owner) :=
      .located owner hkind (hnodes (.head _))
    have hbuilds := h.toBuildsIn.trans ((Builds.single hstep fun _ => rfl).within fun _ => rfl)
    exact ih (fun n hn => hnodes (.tail _ hn)) ⟨hbuilds, h.symbol, h.openNamespaces⟩

/-! ### Statements -/

/-- Between the bindings nothing became implicitly open, and the answer is the blockless namespace
that was met last, with its symbol. -/
structure Answers (b b' : Bindings) (captor : Option NodeId) (answer : Option Blockless) :
    Prop where
  node : answer.map Blockless.node = captor
  symbol {x : Blockless} : answer = some x → b'.symbolOf? x.node = some x.symbol
  openNamespaces : b'.openNamespaces = b.openNamespaces

/-- There is no blockless namespace. -/
theorem Answers.none (h : b'.openNamespaces = b.openNamespaces) : Answers b b' none none :=
  ⟨rfl, fun h => by simp at h, h⟩

/-- A later answer takes precedence. -/
theorem Answers.or {captor next : Option NodeId} {answer later : Option Blockless}
    (h : Answers b b' captor answer) (hbuilds : Builds tree b' b'') (h' : Answers b' b'' next later) :
    Answers b b'' (next.or captor) (later.or answer) := by
  have hopen := h'.openNamespaces.trans h.openNamespaces
  cases later with
  | none =>
    obtain rfl := h'.node
    exact ⟨h.node, fun hx => hbuilds.symbolOf? (h.symbol hx), hopen⟩
  | some x =>
    obtain rfl := h'.node
    exact ⟨rfl, fun hx => h'.symbol hx, hopen⟩

/-- A statement has been bound: what is inside it got symbols, and the answer is the blockless
namespace that was met last in it. -/
structure Binds (tree : Tree) (depth : Nat) (statement : NodeId) (b : Bindings)
    (result : Option Blockless × Bindings) : Prop where
  builds : BuildsIn tree statement b result.2
  answers : Answers b result.2 (tree.captorWithin depth statement) result.1
  bound : Bound tree result.2 statement

/-- A declaration that is no namespace answers nothing. -/
theorem Declares.binds {depth : Nat} (h : Declares tree statement b b')
    (hcaptor : tree.captorWithin depth statement = none) :
    Binds tree depth statement b (none, b') :=
  ⟨h.toBuildsIn, hcaptor ▸ .none h.openNamespaces, fun _ _ _ _ _ => h.symbol⟩

/-- A statement that declares nothing. -/
theorem Builds.binds {depth : Nat} (h : Builds tree b b')
    (hsame : ∀ n, b'.symbolOf? n = b.symbolOf? n) (hopen : b'.openNamespaces = b.openNamespaces)
    (hnone : ∀ kind, tree.kind? statement = some kind →
      kind.symbolKind? = none ∨ kind.symbolKind? = some .templateParameter)
    (hcaptor : tree.captorWithin depth statement = none) :
    Binds tree depth statement b (none, b') := by
  refine ⟨h.within hsame, hcaptor ▸ .none hopen, fun kind symbolKind hkind hsym hnot => ?_⟩
  rcases hnone kind hkind with hnone | hparam
  · simp [hnone] at hsym
  · exact absurd (some.inj (hsym.symm.trans hparam)) hnot

section

variable {depth : Nat} {parts : NamespaceNode} (hwf : tree.WellFormed)
  (hkind : tree.kind? statement = some (.namespaceStatement parts))
  (hfresh : Fresh tree statement b) (hscope : Scopes tree b scope statement)

include hkind hfresh hscope

/-- A blockless namespace is the answer itself. -/
theorem blockless_binds (hless : parts.blockless = true) :
    Binds tree (depth + 1) statement b (bindStatement tree (depth + 1) scope statement b) := by
  have hdecl := declare_declares hscope hkind rfl (by simp) rfl hfresh
    (by simp [Tree.templateParameters, hkind]) fun _ heq => NodeKind.namespaceStatement.inj heq ▸ hless
  obtain ⟨-, hsymOf, -⟩ := declare_step hscope hkind rfl (by simp) rfl (hfresh statement (.head _)) rfl
  have hsym := (hsymOf statement).trans (if_pos rfl)
  simp only [bindStatement, state_bind, state_modify, hkind, hless]
  have hcaptor : tree.captorWithin (depth + 1) statement = some statement := by
    simp [Tree.captorWithin, hkind, hless]
  exact ⟨hdecl.toBuildsIn.trans ((Builds.single (.scope hkind rfl) fun _ => rfl).within
    fun _ => rfl), ⟨hcaptor ▸ rfl, fun hx => some.inj hx ▸ hsym, hdecl.openNamespaces⟩,
    fun _ _ _ _ _ => ⟨_, hsym⟩⟩

include hwf

/-- The statements in the block of a namespace are bound one after the other. -/
theorem block_binds (hless : parts.blockless = false)
    (ih : ∀ {n scope b}, n ∈ parts.statements → Fresh tree n b → Scopes tree b scope n →
      Binds tree depth n b (bindStatement tree depth scope n b)) :
    Binds tree (depth + 1) statement b (bindStatement tree (depth + 1) scope statement b) := by
  have hchild : ∀ n ∈ parts.statements, tree.parent? n = some statement := fun n hn =>
    hwf.parent_of_statement hkind hn
  have hinside : ∀ n ∈ parts.statements, statement ∈ tree.selfAndAncestors n := fun n hn =>
    hwf.parent_mem_selfAndAncestors (hchild n hn)
  have hnodup : parts.statements.Nodup := by
    have hall := hwf.nodup statement
    simp only [Tree.children, hkind, map_some, getD_some, NodeKind.children] at hall
    exact hall.sublist (sublist_append_right _ _)
  rcases hdecl : declare scope parts.name .namespaceKind statement b with ⟨owner, b₁⟩
  obtain ⟨hstep, hsymOf, hopen⟩ := declare_step hscope hkind rfl (by simp) rfl
    (hfresh statement (.head _)) hdecl
  have hopened : Builds tree b₁ (b₁.openLocals statement) :=
    .single (.scope hkind rfl) fun _ => rfl
  have hinner : ∀ n ∈ parts.statements, Fresh tree n (b₁.openLocals statement) := by
    intro n hn k hk
    have hle := hwf.index_le_of_mem_selfAndAncestors hk
    have hlt := hwf.lt_of_parent (hchild n hn)
    refine ((hsymOf k).trans (if_neg fun heq => ?_)).trans (hfresh.inside hwf (hinside n hn) k hk)
    rw [heq] at hle
    omega
  simp only [bindStatement, state_bind, state_modify, hkind, hless, hdecl]
  -- What is carried along is the last answer, that the namespace keeps its symbol, and that the
  -- statements so far are bound.
  obtain ⟨hbuilds, helse, hanswers, hkept, hbound⟩ := foldlM_builds parts.statements []
    (f := fun found inner => do
      let next ← bindStatement tree depth (.namespaceScope owner) inner
      return next.or found)
    (I := fun before found b' =>
      Answers b b' (before.foldl (fun found inner => (tree.captorWithin depth inner).or found) none)
        found ∧
      b'.symbolOf? statement = some owner ∧ ∀ m ∈ before, Bound tree b' m)
    hwf hnodup hchild
    (fun {before n after found b'} hall hfresh hI => by
      have hn : n ∈ parts.statements := by simp [hall]
      obtain ⟨hbuilds, hanswers, hbound⟩ := ih hn hfresh (.block hkind hless hn hI.2.1)
      refine ⟨hbuilds, ?_, hbuilds.symbolOf? hI.2.1, forall_mem_append.mpr
        ⟨fun m hm => hbuilds.bound (hI.2.2 m hm), forall_mem_singleton.mpr hbound⟩⟩
      rw [foldl_append]
      exact hI.1.or hbuilds.toBuilds hanswers)
    rfl hinner ⟨.none hopen, (hsymOf statement).trans (if_pos rfl), by simp⟩ rfl
  refine ⟨⟨.declared hstep hsymOf (by simp [Tree.templateParameters, hkind])
    (hopened.trans hbuilds) fun {parts'} hparts _ => ?_, fun {n} hn => ?_⟩, ?_,
    fun _ _ _ _ _ => ⟨_, hkept⟩⟩
  · obtain rfl := NodeKind.namespaceStatement.inj (mem_unique hkind hparts)
    exact hbound
  · refine (helse n fun m hm hmem => hn ?_).trans
      ((hsymOf n).trans (if_neg (ne_of_outside hn)))
    exact hwf.selfAndAncestors_trans hmem (hinside m hm)
  · simpa [Tree.captorWithin, hkind, hless] using hanswers

end

/-- Binding a statement inside which nothing has a symbol yet. -/
theorem bindStatement_binds (hc : tree.Complete) (depth : Nat)
    (hfresh : Fresh tree statement b) (hscope : Scopes tree b scope statement)
    (hdepth : statement.index < depth) :
    Binds tree depth statement b (bindStatement tree depth scope statement b) := by
  have hwf := hc.toWellFormed
  induction depth generalizing scope statement b with
  | zero => exact absurd hdepth (Nat.not_lt_zero _)
  | succ depth ih =>
    cases hkind : tree.kind? statement with
    | none =>
      simp only [bindStatement, hkind]
      exact (Builds.refl b).binds (fun _ => rfl) rfl (by simp [hkind])
        (by simp [Tree.captorWithin, hkind])
    | some kind =>
      cases kind with
      | namespaceStatement parts =>
        cases hless : parts.blockless with
        | true => exact blockless_binds hkind hfresh hscope hless
        | false =>
          refine block_binds hwf hkind hfresh hscope hless fun hn hfresh hscope => ?_
          have hlt := hwf.lt_of_parent (hwf.parent_of_statement hkind hn)
          exact ih hfresh hscope (by omega)
      | modelStatement _ | aliasStatement _ =>
        simp only [bindStatement, hkind]
        exact (declaration_declares hwf hscope hkind rfl (by simp) rfl hfresh (by simp) rfl).binds
          (by simp [Tree.captorWithin, hkind])
      | interfaceStatement parts =>
        simp only [bindStatement, hkind]
        have hdecl := declaration_declares hwf hscope hkind rfl (by simp) rfl hfresh (by simp) rfl
        exact (hdecl.recordNamespaces scope.owner hkind (List.Subset.refl _)).binds
          (by simp [Tree.captorWithin, hkind])
      | operationStatement _ | enumStatement _ | intrinsicStatement _ =>
        simp only [bindStatement, hkind]
        exact (declare_declares hscope hkind rfl (by simp) rfl hfresh
          (by simp [Tree.templateParameters, hkind]) (by simp)).binds
          (by simp [Tree.captorWithin, hkind])
      | usingStatement target =>
        simp only [bindStatement, hkind]
        exact (Builds.single (.noted hkind) fun _ => rfl).binds (fun _ => rfl) rfl (by simp [hkind])
          (by simp [Tree.captorWithin, hkind])
      | _ =>
        simp only [bindStatement, hkind]
        exact (Builds.refl b).binds (fun _ => rfl) rfl (by simp [hkind])
          (by simp [Tree.captorWithin, hkind])

/-! ### Files and programs -/

/-- What becomes implicitly open in a file: the blockless namespaces among its statements and the
namespaces around them. -/
def opened (tree : Tree) (file : NodeId) (statements : List NodeId) : List NodeId :=
  (statements.filterMap (tree.captorWithin tree.size)).flatMap (namespaceChain tree file)

/-- After some statements of a file, and before those that go to the given scope, the statements are
bound and the file has open what they open. -/
structure Midway (tree : Tree) (file : NodeId) (start : Bindings) (before : List NodeId)
    (scope : BindingScope) (b : Bindings) : Prop where
  scope : (tree.captor? before = none ∧ scope = .file file) ∨
    ∃ m symbol, tree.captor? before = some m ∧ b.symbolOf? m = some symbol ∧
      scope = .namespaceScope symbol
  bound : ∀ n ∈ before, Bound tree b n
  opens (other : NodeId) : b.openNamespacesOf other =
    start.openNamespacesOf other ++ if other = file then opened tree file before else []

/-- The scope is that of the next statement. -/
theorem Midway.scopes (h : Midway tree file start before scope b) (hfile : file ∈ tree.files)
    (hkind : tree.kind? file = some (.sourceFile name (before ++ n :: after))) :
    Scopes tree b scope n := by
  obtain ⟨hcaptor, rfl⟩ | ⟨m, symbol, hcaptor, hm, rfl⟩ := h.scope
  · exact .file hfile hkind hcaptor
  · exact .captured hfile hkind hcaptor hm

/-- A statement of a file is bound in the scope that was left by those before. -/
theorem bindFileStatement_builds (hc : tree.Complete) (hfile : file ∈ tree.files)
    (hkind : tree.kind? file = some (.sourceFile name (before ++ n :: after)))
    (hfresh : Fresh tree n b) (h : Midway tree file start before scope b) :
    BuildsIn tree n b (bindFileStatement tree file scope n b).2 ∧
      Midway tree file start (before ++ [n]) (bindFileStatement tree file scope n b).1
        (bindFileStatement tree file scope n b).2 := by
  have hmem : n ∈ tree.children file := by simp [Tree.children, hkind]
  have hlt := hc.lt_of_parent (hc.parent_of_mem hmem)
  obtain ⟨hbuilds, hanswers, hbound⟩ := bindStatement_binds hc tree.size hfresh
    (h.scopes hfile hkind) (Nat.lt_trans hlt (Tree.index_lt_size_of_kind hkind))
  have hboth := forall_mem_append.mpr
    ⟨fun m hm => hbuilds.bound (h.bound m hm), forall_mem_singleton.mpr hbound⟩
  have hopens : ∀ other, (bindStatement tree tree.size scope n b).2.openNamespacesOf other =
      start.openNamespacesOf other ++ if other = file then opened tree file before else [] := by
    intro other
    rw [← h.opens, openNamespacesOf, openNamespacesOf, hanswers.openNamespaces]
  have hnode := hanswers.node
  simp only [bindFileStatement, state_bind]
  cases hanswer : (bindStatement tree tree.size scope n b).1 with
  | none =>
    rw [hanswer] at hnode
    have hsame : opened tree file (before ++ [n]) = opened tree file before := by
      simp [opened, ← hnode]
    refine ⟨hbuilds, ?_, hboth, hsame ▸ hopens⟩
    rw [Tree.captor?_append_singleton, ← hnode]
    obtain ⟨hcaptor, rfl⟩ | ⟨m, symbol, hcaptor, hm, rfl⟩ := h.scope
    · exact .inl ⟨hcaptor, rfl⟩
    · exact .inr ⟨m, symbol, hcaptor, hbuilds.symbolOf? hm, rfl⟩
  | some x =>
    rw [hanswer] at hnode
    have hmore : opened tree file (before ++ [n]) =
        opened tree file before ++ namespaceChain tree file x.node := by
      simp [opened, ← hnode]
    refine ⟨hbuilds.trans ((Builds.single (.opened _ _) fun _ => rfl).within fun _ => rfl),
      .inr ⟨x.node, x.symbol, ?_, hanswers.symbol hanswer, rfl⟩, hboth, fun other => ?_⟩
    · rw [Tree.captor?_append_singleton, ← hnode]
      rfl
    · change ((OrderedMap.insert _ file _).find? other).getD [] = _
      rw [OrderedMap.find?_insert, hmore]
      by_cases heq : other = file
      · rw [if_pos heq, if_pos heq, getD_some, hopens, if_pos rfl, heq, append_assoc]
      · rw [if_neg heq, if_neg heq]
        exact (hopens other).trans (by rw [if_neg heq])

/-- Binding a file gives symbols inside the file, and opens what its statements open. -/
theorem bindFile_builds (hc : tree.Complete) (hfile : file ∈ tree.files)
    (hfresh : Fresh tree file b) : BuildsIn tree file b (bindFile tree file b).2 ∧
      (∀ n ∈ tree.children file, Bound tree (bindFile tree file b).2 n) ∧
      ∀ other, (bindFile tree file b).2.openNamespacesOf other = b.openNamespacesOf other ++
        if other = file then opened tree file (tree.children file) else [] := by
  have hwf := hc.toWellFormed
  obtain ⟨-, name, statements, hkind⟩ := hc.file_root hfile
  have hchildren : tree.children file = statements := by
    simp [Tree.children, hkind]
  have hchild : ∀ n ∈ statements, tree.parent? n = some file := fun n hn =>
    hwf.parent_of_mem (hchildren ▸ hn)
  have hinside : ∀ n ∈ statements, file ∈ tree.selfAndAncestors n := fun n hn =>
    hwf.parent_mem_selfAndAncestors (hchild n hn)
  have hopened : Builds tree b
      (openLocals { b with fileExports := b.fileExports.insertIfNew file .empty } file) :=
    (Builds.single (.file b file) fun _ => rfl).trans
      (.single (.scope hkind rfl) fun _ => rfl)
  simp only [bindFile, hkind]
  obtain ⟨hbuilds, helse, hend⟩ := foldlM_builds
    (b := openLocals { b with fileExports := b.fileExports.insertIfNew file .empty } file)
    (f := bindFileStatement tree file) statements [] (I := Midway tree file b) hwf
    (hchildren ▸ hwf.nodup file) hchild
    (fun hall hfresh h => bindFileStatement_builds hc hfile (hall ▸ hkind) hfresh h)
    rfl (fun n hn => hfresh.inside hwf (hinside n hn))
    ⟨.inl ⟨rfl, rfl⟩, by simp, fun other => by simp [opened]; rfl⟩ rfl
  rw [hchildren]
  refine ⟨⟨hopened.trans hbuilds, fun {k} hk => helse k fun n hn hmem => hk ?_⟩, hend.bound,
    hend.opens⟩
  exact hwf.selfAndAncestors_trans hmem (hinside n hn)

/-- The intrinsic types are bound first. -/
theorem initial_builds (hc : tree.Complete) : Builds tree global (initial tree) ∧
    (∀ k, Tree.globalNamespace ∉ tree.selfAndAncestors k → (initial tree).symbolOf? k = none) ∧
    (∀ n ∈ tree.children Tree.globalNamespace, Bound tree (initial tree) n) ∧
    (initial tree).openNamespaces = .empty := by
  obtain ⟨-, parts, hkind⟩ := hc.global_root
  have hchild : ∀ n ∈ tree.children Tree.globalNamespace,
      tree.parent? n = some Tree.globalNamespace := fun n hn => hc.parent_of_mem hn
  have hchildren : ∀ n ∈ tree.children Tree.globalNamespace, Fresh tree n global := by
    refine fun n hn k hk => symbolOf?_global fun heq => ?_
    have hle := hc.index_le_of_mem_selfAndAncestors hk
    have hlt := hc.lt_of_parent (hchild n hn)
    rw [heq] at hle
    omega
  have hrun : initial tree = ((tree.children Tree.globalNamespace).foldlM (fun _ statement =>
      discard <| bindStatement tree tree.size (.namespaceScope globalSymbol) statement) ()
        global).2 :=
    congrArg Prod.snd (state_forM (fun statement => discard <|
      bindStatement tree tree.size (.namespaceScope globalSymbol) statement) _ global)
  rw [hrun]
  obtain ⟨hbuilds, helse, hbound, hopen⟩ := foldlM_builds (f := fun _ statement => discard <|
      bindStatement tree tree.size (.namespaceScope globalSymbol) statement)
    (tree.children Tree.globalNamespace) []
    (I := fun before _ b' => (∀ n ∈ before, Bound tree b' n) ∧ b'.openNamespaces = .empty)
    hc.toWellFormed (hc.nodup _) hchild
    (fun {before n after _ b'} hall hfresh hI => by
      have hn : n ∈ tree.children Tree.globalNamespace := by simp [hall]
      obtain ⟨hbuilds, hanswers, hbound⟩ := bindStatement_binds hc tree.size hfresh (.intrinsic hn)
        (Nat.lt_trans (hc.lt_of_parent (hchild n hn)) (Tree.index_lt_size_of_kind hkind))
      exact ⟨hbuilds, forall_mem_append.mpr ⟨fun m hm => hbuilds.bound (hI.1 m hm),
        forall_mem_singleton.mpr hbound⟩, hanswers.openNamespaces.trans hI.2⟩)
    rfl hchildren ⟨by simp, rfl⟩ rfl
  refine ⟨hbuilds, fun k hk => (helse k fun n hn hmem => hk ?_).trans
    (symbolOf?_global (ne_of_outside hk)), hbound, hopen⟩
  exact hc.selfAndAncestors_trans hmem (hc.parent_mem_selfAndAncestors (hchild n hn))

/-- Bindings come from the global namespace by steps, every declaration at the top level has a
symbol, and a file has open what its statements open. -/
structure BuildsTree (tree : Tree) (b : Bindings) : Prop where
  builds : Builds tree global b
  bound {root n : NodeId} : tree.parent? root = none → n ∈ tree.children root → Bound tree b n
  opens : ∀ file ∈ tree.files, b.openNamespacesOf file = opened tree file (tree.children file)

/-- The files are bound one after the other. -/
theorem ofTree_builds (hc : tree.Complete) : BuildsTree tree (ofTree tree) := by
  obtain ⟨hinit, helse, hglobal, hopen⟩ := initial_builds hc
  have hrun : ofTree tree = (tree.files.foldlM (fun _ => bindFile tree) () (initial tree)).2 :=
    congrArg Prod.snd (state_forM (bindFile tree) tree.files (initial tree))
  rw [hrun]
  have hfiles : ∀ f ∈ tree.files, Fresh tree f (initial tree) := by
    intro f hf k hk
    obtain ⟨hroot, fileName, statements, hfile⟩ := hc.file_root hf
    obtain ⟨hglobal, parts, hkind⟩ := hc.global_root
    refine helse k fun hmem => ?_
    refine hc.not_mem_selfAndAncestors_of_sibling (hglobal.trans hroot.symm) (fun heq => ?_) hmem hk
    rw [← heq, hkind] at hfile
    simp at hfile
  obtain ⟨hbuilds, -, hbound, hopens⟩ := foldlM_builds (f := fun _ => bindFile tree) tree.files []
    (I := fun before _ b' => (∀ g ∈ before, ∀ n ∈ tree.children g, Bound tree b' n) ∧
      ∀ other, b'.openNamespacesOf other =
        if other ∈ before then opened tree other (tree.children other) else [])
    hc.toWellFormed hc.files_nodup (fun f hf => (hc.file_root hf).1)
    (fun {before f after _ b'} hall hfresh hI => by
      obtain ⟨hbuilds, hbound, hopens⟩ := bindFile_builds hc (by simp [hall]) hfresh
      have hnot : f ∉ before := fun hmem =>
        (nodup_append.mp (hall ▸ hc.files_nodup)).2.2 f hmem f (.head _) rfl
      refine ⟨hbuilds, forall_mem_append.mpr ⟨fun g hg n hn => hbuilds.bound (hI.1 g hg n hn),
        forall_mem_singleton.mpr hbound⟩, fun other => (hopens other).trans ?_⟩
      rw [hI.2]
      by_cases heq : other = f
      · simp [heq, hnot]
      · simp [heq])
    rfl hfiles ⟨by simp, fun other => by simp [openNamespacesOf, hopen]⟩ rfl
  refine ⟨hinit.trans hbuilds, fun {root n} hroot hn => ?_, fun file hfile =>
    (hopens file).trans (if_pos hfile)⟩
  obtain ⟨kind, hkind, -⟩ := Tree.exists_kind_of_mem_children hn
  rcases hc.root hkind hroot with rfl | hfile
  · exact hbuilds.bound (hglobal n hn)
  · exact hbound root hfile n hn

/-- Declaring a decorator gives no symbol to a node. -/
theorem declareDecorator_builds (path : String) :
    Builds tree b (declareDecorator tree path b).2 ∧
      (declareDecorator tree path b).2.openNamespaces = b.openNamespaces := by
  simp only [declareDecorator, state_bind, state_get]
  cases howner : b.decoratorOwner? tree path with
  | none => exact ⟨.refl b, rfl⟩
  | some owner => exact ⟨.single (.decorator howner) fun _ => rfl, rfl⟩

/-- Declaring decorators changes none of this. -/
theorem declaring_builds (hc : tree.Complete) (paths : List String) :
    BuildsTree tree (declaring tree paths) := by
  have hpaths : ∀ (paths : List String) (b : Bindings), BuildsTree tree b → BuildsTree tree
      (paths.foldl (fun b path => ((declareDecorator tree path).run b).2) b) := by
    intro paths
    induction paths with
    | nil => exact fun _ h => h
    | cons path paths ih =>
      intro b h
      obtain ⟨hbuilds, hopen⟩ : Builds tree b _ ∧ _ := declareDecorator_builds path
      refine ih _ ⟨h.builds.trans hbuilds, fun hroot hn => hbuilds.bound (h.bound hroot hn),
        fun file hfile => Eq.trans ?_ (h.opens file hfile)⟩
      exact congrArg (fun map => (map.find? file).getD []) hopen
  exact hpaths paths (ofTree tree) (ofTree_builds hc)

/-- Binding a program and declaring decorators yields consistent bindings. -/
theorem declaring_consistent (hc : tree.Complete) (paths : List String) :
    Consistent tree (declaring tree paths) :=
  preserves_of_step (fun hstep h => hstep.consistent hc h) (declaring_builds hc paths).builds.steps
    (global_consistent hc)

end Bindings

/-- The bindings of a program are such. -/
theorem Program.bindings_builds (program : Program) (hc : program.tree.Complete) :
    Bindings.BuildsTree program.tree program.bindings :=
  Bindings.declaring_builds hc program.registry.paths

end ApiSchema
