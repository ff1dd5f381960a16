import ApiSchema.Proofs.Binding.Paths
import ApiSchema.Proofs.Binding.Records
import ApiSchema.Proofs.Checking.NamespaceTypes

/-!
# Lexical scoping

The names visible in a declaration are its template parameters and what the namespaces around it
export. They are looked up through the nodes around the declaration and through the namespaces that
its file has implicitly open, while the namespace that a declaration belongs to and the namespaces
around it are symbols. Here it is shown that both describe the same namespaces, from the inside out,
as long as nothing is imported and blockless namespaces only stand at the beginning of files.
-/

namespace ApiSchema

open NodeKind BindingScope Option List

variable {kind : NodeKind} {depth : Nat} {first n file statement m d : NodeId} {rest : List NodeId}
  {scope : BindingScope} {id : SymbolId} {s' : State}

/-- What declares something and has parts, but is no namespace. -/
theorem NodeKind.plain_of_declares (hdeclares : kind.symbolKind?.isSome = true)
    (hparts : kind.children ≠ []) (hnot : ∀ parts, kind ≠ .namespaceStatement parts) :
    kind.isScope = false ∧ kind.symbolKind? ≠ some .templateParameter ∧
      ∀ name, kind ≠ .intrinsicStatement name := by
  cases kind <;> simp_all [isScope, symbolKind?, children]

namespace Tree

variable {tree : Tree}

/-- The namespace statements that a dotted name stands for: a statement and, as long as it holds one
namespace and nothing else, the statement inside it. -/
def dottedWithin (tree : Tree) : Nat → NodeId → List NodeId
  | 0, _ => []
  | depth + 1, n => n :: match tree.kind? n with
    | some (.namespaceStatement ⟨_, [inner], false, _⟩) => tree.dottedWithin depth inner
    | _ => []

/-- There are no `using` statements, and every blockless namespace is the first statement of its
file, under a dotted name or not. -/
structure Lexical (tree : Tree) : Prop where
  usings (n target : NodeId) : tree.kind? n ≠ some (.usingStatement target)
  blockless {n : NodeId} {parts : NamespaceNode} :
    tree.kind? n = some (.namespaceStatement parts) → parts.blockless = true →
    ∃ file ∈ tree.files, ∃ first, (tree.children file).head? = some first ∧
      n ∈ tree.dottedWithin tree.size first

/-- Whether a node of a kind may occur where scoping is to be lexical. -/
def allowsLexical (tree : Tree) (n : NodeId) : NodeKind → Bool
  | .usingStatement _ => false
  | .namespaceStatement parts => !parts.blockless || tree.files.any fun file =>
    (tree.children file).head?.any fun first => n ∈ tree.dottedWithin tree.size first
  | _ => true

/-- Scoping can be decided. -/
theorem lexical_iff : tree.Lexical ↔
    ∀ i < tree.size, (tree.kind? ⟨i⟩).all (tree.allowsLexical ⟨i⟩) = true := by
  constructor
  · intro h i _
    cases hkind : tree.kind? ⟨i⟩ with
    | none => rfl
    | some kind =>
      cases kind with
      | usingStatement target => exact absurd hkind (h.usings _ target)
      | namespaceStatement parts =>
        cases hless : parts.blockless with
        | false => simp [allowsLexical, hless]
        | true =>
          obtain ⟨file, hfile, first, hfirst, hmem⟩ := h.blockless hkind hless
          simpa [allowsLexical, hless] using ⟨file, hfile, by simpa [hfirst] using hmem⟩
      | _ => rfl
  · intro h
    have hallows : ∀ {n : NodeId} {kind : NodeKind}, tree.kind? n = some kind →
        tree.allowsLexical n kind = true := fun {n _} hkind => by
      simpa [hkind] using h n.index (index_lt_size_of_kind hkind)
    constructor
    · intro n target hkind
      simpa [allowsLexical] using hallows hkind
    · intro n parts hkind hless
      simpa [allowsLexical, hless, Option.any_eq_true] using hallows hkind

instance (tree : Tree) : Decidable tree.Lexical := decidable_of_iff _ lexical_iff.symm

/-- What follows the statement of a dotted name in its chain is in the only statement inside it. -/
theorem mem_dottedWithin_cases (h : n ∈ tree.dottedWithin depth first) :
    n = first ∨ ∃ depth' name inner decorators,
      tree.kind? first = some (.namespaceStatement ⟨name, [inner], false, decorators⟩) ∧
        n ∈ tree.dottedWithin depth' inner := by
  cases depth with
  | zero => simp [dottedWithin] at h
  | succ depth =>
    rw [dottedWithin, mem_cons] at h
    refine h.imp_right fun h => ?_
    split at h
    · exact ⟨depth, _, _, _, by assumption, h⟩
    · simp at h

theorem WellFormed.mem_ancestors_of_dotted (hwf : tree.WellFormed)
    (h : n ∈ tree.dottedWithin depth first) : first ∈ tree.selfAndAncestors n := by
  induction depth generalizing first with
  | zero => simp [dottedWithin] at h
  | succ depth ih =>
    rw [dottedWithin, mem_cons] at h
    rcases h with rfl | h
    · exact .head _
    · split at h
      next name inner decorators hkind =>
        exact hwf.selfAndAncestors_trans (ih h) (hwf.parent_mem_selfAndAncestors
          (hwf.parent_of_statement hkind (.head _)))
      · simp at h

/-- A statement of a file stands in no other file. -/
theorem Complete.file_of_statement (hc : tree.Complete) {other : NodeId} (hfile : file ∈ tree.files)
    (hother : other ∈ tree.files) (hpar : tree.parent? statement = some file)
    (haround : statement ∈ tree.selfAndAncestors n) (hn : other ∈ tree.selfAndAncestors n) :
    file = other := by
  by_contra hne
  exact hc.not_mem_selfAndAncestors_of_sibling
    ((hc.file_root hfile).1.trans (hc.file_root hother).1.symm) hne
    (hc.selfAndAncestors_trans haround (hc.parent_mem_selfAndAncestors hpar)) hn

/-- Around a statement of a file there is only the file. -/
theorem Complete.eq_statement (hc : tree.Complete) (hfile : file ∈ tree.files)
    (hpar : tree.parent? statement = some file) (hn : tree.parent? n = some file)
    (haround : statement ∈ tree.selfAndAncestors n) :
    statement = n := by
  rw [hc.selfAndAncestors_of_parent hn, mem_cons, selfAndAncestors,
    WellFormed.ancestors_of_root (hc.file_root hfile).1, mem_singleton] at haround
  refine haround.resolve_right fun heq => ?_
  rw [heq, (hc.file_root hfile).1] at hpar
  simp at hpar

theorem foldl_captorWithin {statements : List NodeId}
    (h : ∀ statement ∈ statements, tree.captorWithin tree.size statement = none)
    (found : Option NodeId) : statements.foldl
      (fun found statement => (tree.captorWithin tree.size statement).or found) found = found := by
  induction statements with
  | nil => rfl
  | cons statement statements ih =>
    rw [foldl_cons, h statement (.head _), none_or]
    exact ih fun other hother => h other (.tail _ hother)

/-- A statement is the only one of its file that holds a blockless namespace. -/
def OnlyCaptor (tree : Tree) (file statement m : NodeId) : Prop :=
  statement ∈ tree.children file ∧ tree.captorWithin tree.size statement = some m ∧
    ∀ other ∈ tree.children file, other ≠ statement → tree.captorWithin tree.size other = none

/-- If one statement of a file holds a blockless namespace, the file has open what it opens. -/
theorem OnlyCaptor.opened_eq (hc : tree.Complete) (h : tree.OnlyCaptor file statement m) :
    Bindings.opened tree file (tree.children file) = Bindings.namespaceChain tree file m := by
  obtain ⟨hmem, hcaptor, honly⟩ := h
  have hnodup := hc.nodup file
  obtain ⟨before, after, hsplit⟩ := append_of_mem hmem
  rw [hsplit] at hnodup honly ⊢
  have hnot := (nodup_cons.mp (nodup_middle.mp hnodup)).1
  have hnone : (before ++ after).filterMap (tree.captorWithin tree.size) = [] :=
    filterMap_eq_nil_iff.mpr fun other hother =>
      honly other (by grind) fun heq => hnot (heq ▸ hother)
  obtain ⟨hbefore, hafter⟩ := append_eq_nil_iff.mp (filterMap_append.symm.trans hnone)
  rw [Bindings.opened, filterMap_append, filterMap_cons_some hcaptor, hbefore, hafter]
  exact flatMap_singleton ..

namespace Lexical

variable (h : tree.Lexical) (hc : tree.Complete)

include h hc

section

variable (hfile : file ∈ tree.files) (hchildren : tree.children file = first :: rest)

include hfile hchildren

/-- Only the first statement of a file holds a blockless namespace. -/
theorem dotted_of_captorWithin (hstmt : statement ∈ first :: rest) {depth : Nat}
    (hcaptor : tree.captorWithin depth statement = some m) :
    m ∈ tree.dottedWithin tree.size first ∧ statement ∈ tree.selfAndAncestors m := by
  obtain ⟨⟨parts, hkind, hless⟩, haround⟩ := hc.captorWithin_spec hcaptor
  obtain ⟨other, hother, head, hhead, hdotted⟩ := h.blockless hkind hless
  have hpar : tree.parent? statement = some file := hc.parent_of_mem (hchildren ▸ hstmt)
  have hheadParent : tree.parent? head = some other :=
    hc.parent_of_mem (mem_of_mem_head? (by simp [hhead]))
  -- Both stand in the file of the namespace.
  obtain rfl : file = other := hc.file_of_statement hfile hother hpar haround
    (hc.selfAndAncestors_trans (hc.mem_ancestors_of_dotted hdotted)
      (hc.parent_mem_selfAndAncestors hheadParent))
  obtain rfl : first = head := by simpa [hchildren] using hhead
  exact ⟨hdotted, haround⟩

/-- The other statements hold none. -/
theorem captorWithin_eq_none (hstmt : statement ∈ rest) (depth : Nat) :
    tree.captorWithin depth statement = none := by
  cases hcaptor : tree.captorWithin depth statement with
  | none => rfl
  | some m =>
    have hmem := mem_cons_of_mem first hstmt
    obtain ⟨hdotted, haround⟩ := h.dotted_of_captorWithin hc hfile hchildren hmem hcaptor
    have hne : statement ≠ first := by
      rintro rfl
      have hnodup := hc.nodup file
      rw [hchildren] at hnodup
      exact (nodup_cons.mp hnodup).1 hstmt
    have hpar : ∀ n ∈ first :: rest, tree.parent? n = some file := fun n hn =>
      hc.parent_of_mem (hchildren ▸ hn)
    exact absurd (hc.mem_ancestors_of_dotted hdotted) (hc.not_mem_selfAndAncestors_of_sibling
      ((hpar _ hmem).trans (hpar _ (.head _)).symm) hne haround)

/-- The namespace that captures the statements of a file is in the first one, if there is one. -/
theorem captor?_eq {before after : List NodeId}
    (hbefore : tree.children file = first :: before ++ after) :
    tree.captor? (first :: before) = tree.captorWithin tree.size first := by
  have hnone : ∀ statement ∈ before, tree.captorWithin tree.size statement = none := by
    intro statement hstmt
    refine h.captorWithin_eq_none hc hfile hchildren ?_ tree.size
    obtain rfl : rest = before ++ after := List.cons.inj (hchildren.symm.trans hbefore) |>.2
    exact mem_append_left _ hstmt
  rw [captor?, foldl_cons, Option.or_none, foldl_captorWithin hnone]

/-- A file has open what its first statement opens. -/
theorem opened_eq :
    Bindings.opened tree file (tree.children file) =
      (tree.captorWithin tree.size first).toList.flatMap (Bindings.namespaceChain tree file) := by
  have hnone : rest.filterMap (tree.captorWithin tree.size) = [] :=
    filterMap_eq_nil_iff.mpr fun statement hstmt =>
      h.captorWithin_eq_none hc hfile hchildren hstmt tree.size
  rw [Bindings.opened, hchildren, filterMap_cons, hnone]
  cases tree.captorWithin tree.size first <;> rfl

end

end Lexical

end Tree

namespace Bindings

variable {tree : Tree} {b : Bindings}

section

variable (h : Situated tree b) (hc : tree.Complete)

include h hc

/-- What is declared inside a statement of a file stands at the top level of the file, and then it
is the statement, or in the block of a namespace inside the statement. -/
theorem Scopes.cases_statement (hscopes : Scopes tree b scope n) (hfile : file ∈ tree.files)
    (hpar : tree.parent? statement = some file) (haround : statement ∈ tree.selfAndAncestors n) :
    (n = statement ∧ ∃ name before after,
      tree.kind? file = some (.sourceFile name (before ++ n :: after)) ∧
        ((tree.captor? before = none ∧ scope = .file file) ∨ ∃ m symbol,
          tree.captor? before = some m ∧ b.symbolOf? m = some symbol ∧
            scope = .namespaceScope symbol)) ∨
    ∃ m parts i id outer, tree.parent? n = some m ∧ statement ∈ tree.selfAndAncestors m ∧
      n ∈ parts.statements ∧ parts.blockless = false ∧ scope = .namespaceScope id ∧
      Site tree b m outer (.namespaceStatement parts) i id ∧ b.symbolOf? m = some id := by
  have hroot := (hc.file_root hfile).1
  have htop : ∀ {other name before after}, other ∈ tree.files →
      tree.kind? other = some (.sourceFile name (before ++ n :: after)) →
      tree.parent? n = some other ∧ other = file := by
    intro other name before after hother hkind
    have hn : tree.parent? n = some other := hc.parent_of_mem (by
      simp [Tree.children, hkind])
    exact ⟨hn, hc.file_of_statement hother hfile hn (.head _)
      (hc.selfAndAncestors_trans haround (hc.parent_mem_selfAndAncestors hpar))⟩
  cases hscopes with
  | intrinsic hmem =>
    rw [hc.selfAndAncestors_of_parent (hc.parent_of_mem hmem), mem_cons,
      Tree.selfAndAncestors, Tree.WellFormed.ancestors_of_root hc.global_root.1,
      mem_singleton] at haround
    rcases haround with rfl | rfl
    · have heq := mem_unique hpar (hc.parent_of_mem hmem)
      obtain ⟨-, parts, hkind⟩ := hc.global_root
      obtain ⟨-, _, _, hfileKind⟩ := hc.file_root hfile
      rw [heq, hkind] at hfileKind
      simp at hfileKind
    · simp [hc.global_root.1] at hpar
  | file hother hkind hcaptor =>
    obtain ⟨hn, rfl⟩ := htop hother hkind
    exact .inl ⟨(hc.eq_statement hfile hpar hn haround).symm, _, _, _, hkind,
      Or.inl ⟨hcaptor, rfl⟩⟩
  | captured hother hkind hcaptor hm =>
    obtain ⟨hn, rfl⟩ := htop hother hkind
    exact .inl ⟨(hc.eq_statement hfile hpar hn haround).symm, _, _, _, hkind,
      Or.inr ⟨_, _, hcaptor, hm, rfl⟩⟩
  | @block _ m parts symbol hkind hblock hmem hm =>
    have hn := hc.parent_of_statement hkind hmem
    have hinside : statement ∈ tree.selfAndAncestors m := by
      rw [hc.selfAndAncestors_of_parent hn, mem_cons] at haround
      refine haround.resolve_left ?_
      rintro rfl
      obtain rfl := mem_unique hpar hn
      obtain ⟨-, _, _, hfileKind⟩ := hc.file_root hfile
      simp [hkind] at hfileKind
    obtain ⟨outer, i, hsite⟩ := h.site_of_namespace hc hm hkind (hc.ne_global hpar hinside)
    exact .inr ⟨m, parts, i, symbol, outer, hn, hinside, hmem, hblock, rfl, hsite, hm⟩

/-- Whatever is declared inside the first statement of a file that begins with a blockless namespace
is on the way to it. -/
theorem Scopes.isNamespace_of_captor (hlexical : tree.Lexical) (hfile : file ∈ tree.files)
    (hchildren : tree.children file = first :: rest)
    (hcaptor : tree.captorWithin tree.size first = some m) (hscopes : Scopes tree b scope n)
    (haround : first ∈ tree.selfAndAncestors n) :
    tree.isNamespace n = true := by
  have hpar : tree.parent? first = some file := hc.parent_of_mem (by simp [hchildren])
  obtain ⟨⟨parts, hkind, hless⟩, -⟩ := hc.captorWithin_spec hcaptor
  have hdotted : ∃ depth, m ∈ tree.dottedWithin depth n := by
    induction n using hc.upward_induction generalizing scope with
    | step n ih =>
      rcases hscopes.cases_statement h hc hfile hpar haround with ⟨rfl, -⟩ |
        ⟨m', parts', i, id, outer, hn, hinside, hmem, hblock, rfl, hsite, -⟩
      · exact ⟨_, (hlexical.dotted_of_captorWithin hc hfile hchildren (.head _) hcaptor).1⟩
      · obtain ⟨depth, hdepth⟩ := ih m' hn hsite.scopes hinside
        rcases Tree.mem_dottedWithin_cases hdepth with rfl | ⟨depth', name, inner, decorators,
          hkind', hinner⟩
        · obtain rfl := namespaceStatement.inj (mem_unique hkind hsite.kind)
          simp [hblock] at hless
        · obtain rfl := namespaceStatement.inj
            (mem_unique hsite.kind hkind')
          rw [mem_singleton.mp hmem]
          exact ⟨depth', hinner⟩
  obtain ⟨depth, hdepth⟩ := hdotted
  rcases Tree.mem_dottedWithin_cases hdepth with rfl | ⟨_, _, _, _, hkind', -⟩
  · exact Tree.isNamespace_iff.mpr ⟨parts, hkind⟩
  · exact Tree.isNamespace_iff.mpr ⟨_, hkind'⟩

/-- The symbols of a namespace in a statement of a file, before which there is no blockless
namespace, and of the namespaces around it. -/
theorem chain_outward {parts : NamespaceNode} {i : Symbol.Identity} (hfile : file ∈ tree.files)
    (hpar : tree.parent? statement = some file)
    (honly : ∀ other ∈ tree.children file, other ≠ statement →
      tree.captorWithin tree.size other = none)
    (hsite : Site tree b n scope (.namespaceStatement parts) i id) (hn : b.symbolOf? n = some id)
    (haround : statement ∈ tree.selfAndAncestors n) :
    (namespaceChain tree file n).filterMap b.symbolOf? ++ [globalSymbol] = b.outward id := by
  have hnodup := hc.nodup file
  obtain ⟨-, _, _, hfileKind⟩ := hc.file_root hfile
  have hchain : ∀ {n m : NodeId} {parts : NamespaceNode},
      tree.kind? n = some (.namespaceStatement parts) → tree.parent? n = some m →
      namespaceChain tree file n = n :: namespaceChain tree file m := by
    intro n m parts hkind hm
    have hne : n ≠ file := by
      rintro rfl
      simp [hkind] at hfileKind
    have hns := Tree.isNamespace_iff.mpr ⟨parts, hkind⟩
    rw [namespaceChain, hc.selfAndAncestors_of_parent hm, takeWhile_cons_of_pos (by simpa),
      filter_cons_of_pos (by simpa), namespaceChain]
  induction n using hc.upward_induction generalizing scope parts i id with
  | step n ih =>
    rw [h.outward_of_parent hsite.identity hsite.parent]
    rcases hsite.scopes.cases_statement h hc hfile hpar haround with
      ⟨rfl, name, before, after, hkind, hscope⟩ |
      ⟨m, parts', i', id', outer, hm, hinside, -, -, rfl, hsite', hm'⟩
    · rw [show tree.children file = before ++ n :: after by
        simp [Tree.children, hkind]] at hnodup honly
      have hnot := (nodup_cons.mp (nodup_middle.mp hnodup)).1
      have hnone : tree.captor? before = none := Tree.foldl_captorWithin (fun other hother =>
        honly other (by simp [hother]) fun heq => hnot (by simp [← heq, hother])) none
      have htop : namespaceChain tree file file = [] := by
        rw [namespaceChain, Tree.selfAndAncestors, takeWhile_cons_of_neg (by simp)]
        rfl
      rcases hscope with ⟨-, rfl⟩ | ⟨m, symbol, hcaptor, -⟩
      · rw [hchain hsite.kind hpar, htop, owner, h.outward_global]
        simp [hn]
      · simp [hnone] at hcaptor
    · rw [hchain hsite.kind hm, filterMap_cons_some hn, cons_append,
        ih m hm hsite' hm' hinside]
      rfl

/-- The namespaces around a declaration, as nodes: those it stands in and those that its file has
open. -/
def enclosing (tree : Tree) (file n : NodeId) : List NodeId :=
  (tree.ancestors n).takeWhile (fun scope => !tree.isSourceFile scope) ++
    opened tree file (tree.children file)

/-- The symbols of the namespaces around a declaration are those found by following parents. -/
theorem Scopes.enclosing_outward (hlexical : tree.Lexical) (hscopes : Scopes tree b scope n)
    (hfile : file ∈ tree.files) (hpar : tree.parent? statement = some file)
    (haround : statement ∈ tree.selfAndAncestors n) (hnot : tree.isNamespace n = false) :
    (enclosing tree file n).filterMap b.symbolOf? ++ [globalSymbol] = b.outward scope.owner := by
  obtain ⟨first, rest, hchildren⟩ : ∃ first rest, tree.children file = first :: rest :=
    exists_cons_of_ne_nil (ne_nil_of_mem (hc.mem_of_parent hpar))
  obtain ⟨hroot, fileName, statements, hfileKind⟩ := hc.file_root hfile
  have hfirst : tree.parent? first = some file := hc.parent_of_mem (by simp [hchildren])
  -- What stands in the first statement is no part of a dotted name.
  have hclear : statement = first → tree.captorWithin tree.size first = none := by
    rintro rfl
    refine eq_none_iff_forall_ne_some.mpr fun m hcaptor => ?_
    simp [hscopes.isNamespace_of_captor h hc hlexical hfile hchildren hcaptor haround] at hnot
  have hopened := hlexical.opened_eq hc hfile hchildren
  clear hnot
  rw [enclosing, hopened]
  induction n using hc.upward_induction generalizing scope with
  | step n ih =>
    rcases hscopes.cases_statement h hc hfile hpar haround with
      ⟨rfl, name, before, after, hkind, hscope⟩ |
      ⟨m, parts, i, id, outer, hm, hinside, -, -, rfl, hsite, hid⟩
    · have htop : (tree.ancestors n).takeWhile (fun scope => !tree.isSourceFile scope) = [] := by
        rw [hc.ancestors_of_parent hpar, takeWhile_cons_of_neg]
        simp [Tree.isSourceFile, hfileKind]
      have hstmts : tree.children file = before ++ n :: after := by
        simp [Tree.children, hkind]
      have hcaptor : tree.captor? before = tree.captorWithin tree.size first := by
        cases before with
        | nil =>
          obtain ⟨heq, -⟩ := List.cons.inj (hchildren.symm.trans hstmts)
          exact (hclear heq.symm).symm
        | cons other before =>
          obtain ⟨rfl, -⟩ := List.cons.inj (hchildren.symm.trans hstmts)
          exact hlexical.captor?_eq hc hfile hchildren hstmts
      rw [htop, nil_append, ← hcaptor]
      rcases hscope with ⟨hnone, rfl⟩ | ⟨m, symbol, hsome, hm, rfl⟩
      · rw [hnone, owner, h.outward_global]
        rfl
      · rw [hsome, toList_some, flatMap_singleton]
        obtain ⟨⟨parts, hmKind, -⟩, hmAround⟩ := hc.captorWithin_spec (hcaptor.symm.trans hsome)
        obtain ⟨outer, i, hsite⟩ := h.site_of_namespace hc hm hmKind (hc.ne_global hfirst hmAround)
        refine chain_outward h hc hfile hfirst (fun other hother hne => ?_) hsite hm hmAround
        rw [hchildren, mem_cons] at hother
        exact hlexical.captorWithin_eq_none hc hfile hchildren (hother.resolve_left hne) tree.size
    · have hnotFile : tree.isSourceFile m = false := by
        simp [Tree.isSourceFile, hsite.kind]
      rw [hc.ancestors_of_parent hm, takeWhile_cons_of_pos (by simp [hnotFile]),
        cons_append, filterMap_cons_some hid, cons_append,
        ih m hm hsite.scopes hinside, owner,
        h.outward_of_parent hsite.identity hsite.parent]

/-- A declaration with something inside it that is no namespace. -/
theorem Situated.site_of_inside (hd : b.symbolOf? d = some id) (hnot : tree.isNamespace d = false)
    (hinside : d ∈ tree.ancestors n) :
    ∃ scope kind i, Site tree b d scope kind i id ∧ kind.children ≠ [] := by
  have hchild : ∃ kind, tree.kind? d = some kind ∧ kind.children ≠ [] := by
    induction n using hc.upward_induction with
    | step n ih =>
      obtain ⟨m, hpar, hinside⟩ := hc.exists_parent_of_mem_ancestors hinside
      rcases mem_cons.mp hinside with rfl | hinside
      · obtain ⟨kind, hkind, hmem⟩ := hc.exists_kind_parent hpar
        exact ⟨kind, hkind, ne_nil_of_mem hmem⟩
      · exact ih m hpar hinside
  obtain ⟨kind, hkind, hchildren⟩ := hchild
  rcases h.site hd with rfl | ⟨scope, kind', i, hsite⟩ | ⟨declaration, _, _, hmem, -⟩
  · obtain ⟨-, hglobal⟩ := hc.global_root
    simp [Tree.isNamespace_iff.mpr hglobal] at hnot
  · obtain rfl := mem_unique hkind hsite.kind
    exact ⟨scope, kind, i, hsite, hchildren⟩
  · obtain ⟨name, hname⟩ := hc.exists_parameter_name hmem
    obtain rfl := mem_unique hkind hname
    exact absurd rfl hchildren

/-- The file that a declaration stands in is the first one around it, and all that stands between
them are namespaces. -/
theorem Scopes.find?_file (hscopes : Scopes tree b scope n) (hfile : file ∈ tree.files)
    (hpar : tree.parent? statement = some file) (haround : statement ∈ tree.selfAndAncestors n) :
    (tree.ancestors n).find? tree.isSourceFile = some file ∧
      ∀ m ∈ (tree.ancestors n).takeWhile (fun scope => !tree.isSourceFile scope),
        tree.isNamespace m = true := by
  obtain ⟨-, fileName, statements, hfileKind⟩ := hc.file_root hfile
  induction n using hc.upward_induction generalizing scope with
  | step n ih =>
    rcases hscopes.cases_statement h hc hfile hpar haround with
      ⟨rfl, -⟩ | ⟨m, parts, i, id, outer, hm, hinside, -, -, rfl, hsite, -⟩
    · have hisFile : tree.isSourceFile file = true := by
        simp [Tree.isSourceFile, hfileKind]
      rw [hc.ancestors_of_parent hpar, find?_cons_of_pos hisFile,
        takeWhile_cons_of_neg (by simp [hisFile])]
      simp
    · have hnotFile : tree.isSourceFile m = false := by
        simp [Tree.isSourceFile, hsite.kind]
      obtain ⟨hfound, hbetween⟩ := ih m hm hsite.scopes hinside
      rw [hc.ancestors_of_parent hm, find?_cons_of_neg (by simp [hnotFile]),
        takeWhile_cons_of_pos (by simp [hnotFile])]
      exact ⟨hfound, forall_mem_cons.mpr ⟨Tree.isNamespace_iff.mpr ⟨_, hsite.kind⟩, hbetween⟩⟩

end

end Bindings

namespace Checking

open Bindings

variable {tree : Tree} {s : State}

/-! ### Looking names up -/

/-- What a namespace exports under a name, in all files. -/
def State.exported? (s : State) (name : String) (id : SymbolId) : Option SymbolId :=
  (s.mergedExports? id).bind fun table => table.find? name

theorem findSome?_exportsOfNode (name : String) (n : NodeId) :
    ((s.exportsOfNode n).findSome? fun table => table.find? name) =
      (s.bindings.symbolOf? n).bind (s.exported? name) := by
  rw [State.exportsOfNode]
  cases hn : s.bindings.symbolOf? n with
  | none => rfl
  | some id =>
    rw [bind_some, bind_some, State.exported?]
    cases s.mergedExports? id with
    | none => rfl
    | some table => simp

/-- Tables that come from nodes are searched through the symbols of the nodes, if no node adds
anything to what its symbol exports. -/
theorem findSome?_flatMap_tables {name : String} {tables : NodeId → List SymbolTable}
    {nodes : List NodeId} (h : ∀ n ∈ nodes, ((tables n).findSome? fun table => table.find? name) =
      (s.bindings.symbolOf? n).bind (s.exported? name)) :
    ((nodes.flatMap tables).findSome? fun table => table.find? name) =
      (nodes.filterMap s.bindings.symbolOf?).findSome? (s.exported? name) := by
  induction nodes with
  | nil => rfl
  | cons n rest ih =>
    rw [flatMap_cons, findSome?_append, h n (.head _),
      ih fun m hm => h m (.tail _ hm), filterMap_cons]
    cases s.bindings.symbolOf? n with
    | none => rfl
    | some id =>
      rw [bind_some, findSome?_cons]
      cases s.exported? name id <;> rfl

theorem tablesOfScope_of_kind (hkind : tree.kind? n = some kind) (hscope : kind.isScope = false) :
    s.tablesOfScope tree n =
      if kind.templateParameters.isEmpty then [] else s.localsOf n := by
  rw [State.tablesOfScope, hkind]
  cases kind <;> simp_all

/-- Between a declaration and a node inside it there are no names and no files. -/
theorem inside_declaration (hwf : tree.WellFormed) (hkind : tree.kind? d = some kind)
    (hscope : kind.isScope = false) (hd : d ∈ tree.ancestors n) :
    ((tree.ancestors n).takeWhile fun scope => !tree.isSourceFile scope).flatMap
        (s.tablesOfScope tree) = s.tablesOfScope tree d ++
          ((tree.ancestors d).takeWhile fun scope => !tree.isSourceFile scope).flatMap
            (s.tablesOfScope tree) ∧
      (tree.ancestors n).find? tree.isSourceFile = (tree.ancestors d).find? tree.isSourceFile ∧
      tree.templateDeclarationOf? n = tree.templateDeclarationOf? d := by
  have hnotFile : ∀ {m : NodeId} {kind : NodeKind}, tree.kind? m = some kind →
      kind.isScope = false → tree.isSourceFile m = false := by
    intro m kind hkind hscope
    cases kind <;> simp_all [Tree.isSourceFile]
  induction n using hwf.upward_induction with
  | step n ih =>
    obtain ⟨m, hpar, hd⟩ := hwf.exists_parent_of_mem_ancestors hd
    rw [hwf.ancestors_of_parent hpar]
    obtain ⟨outer, houter, hchild⟩ := hwf.exists_kind_parent hpar
    rcases mem_cons.mp hd with rfl | hd
    · obtain rfl := mem_unique hkind houter
      have hfile := hnotFile hkind hscope
      refine ⟨?_, ?_, hwf.templateDeclarationOf_child hkind hscope hchild⟩
      · rw [takeWhile_cons_of_pos (by simp [hfile]), flatMap_cons]
      · rw [find?_cons_of_neg (by simp [hfile])]
    · -- Statements stand in files and namespaces only.
      have hpart : outer.role ≠ .statement := fun hrole => by
        have := hwf.isScope_of_mem_ancestors houter hrole hd hkind
        simp [hscope] at this
      have houterScope : outer.isScope = false := by
        refine Bool.eq_false_iff.mpr fun hscoped => ?_
        have hfile := (role_of_isScope hscoped).resolve_right hpart
        simp [Tree.WellFormed.ancestors_of_root (hwf.parent_of_file houter hfile)] at hd
      have hnone : outer.templateParameters = [] := by
        refine eq_nil_iff_forall_not_mem.mpr fun p hp => hpart ?_
        exact role_of_mem_templateParameters hp
      have htables : s.tablesOfScope tree m = [] := by
        rw [tablesOfScope_of_kind houter houterScope, hnone]
        rfl
      have hfile := hnotFile houter houterScope
      obtain ⟨hsame, hfound, htempl⟩ := ih m hpar hd
      refine ⟨?_, ?_, ?_⟩
      · rw [takeWhile_cons_of_pos (by simp [hfile]), flatMap_cons, htables,
          nil_append, hsame]
      · rw [find?_cons_of_neg (by simp [hfile]), hfound]
      · rw [hwf.templateDeclarationOf_child houter houterScope hchild, htempl]

/-! ### Prepared states -/

/-- Without `using` statements preparing changes symbols only. -/
theorem Prepared.bindings_eq {env : Environment} {bound : Bindings} (h : Prepared env bound s)
    (husings : bound.usings = []) :
    s.bindings = { bound with symbols := s.bindings.symbols } := by
  obtain ⟨s₁, himps, hbinds, -⟩ := h.merged
  rw [State.mergeFiles_enters] at himps
  rw [hbinds, imports_bindings himps husings]
  rfl

/-! ### Resolution -/

/-- The template parameter that a name stands for in the template declaration around a node. -/
def parameterNamed? (tree : Tree) (b : Bindings) (n : NodeId) (name : String) : Option SymbolId :=
  (tree.templateDeclarationOf? n).bind fun declaration =>
    (firstNamed? tree (tree.templateParameters declaration) name).bind b.symbolOf?

/-- Inside a declaration a name stands for a template parameter, or else for what the innermost of
the namespaces around the declaration exports under that name. -/
def ResolvesLexically (program : Program) (s : State) : Prop :=
  ∀ (d n : NodeId) (id : SymbolId) (name : String), program.bindings.symbolOf? d = some id →
    program.tree.isNamespace d = false → d ∈ program.tree.ancestors n →
    ∃ owner, program.bindings.namespaceOf? d = some owner ∧
      s.resolve? program.tree n name = (parameterNamed? program.tree program.bindings n name).or
        ((program.bindings.outward owner).findSome? (s.exported? name)) ∧
      (s.resolve? program.tree n name = none ↔
        parameterNamed? program.tree program.bindings n name = none ∧
          ∀ ns ∈ program.bindings.outward owner, s.exported? name ns = none)

variable {program : Program}

/-- Without captures, names are looked up outward. -/
theorem Prepared.resolvesLexically (h : Prepared program.environment program.bindings s)
    (hc : program.tree.Complete) (hlexical : program.tree.Lexical) :
    ResolvesLexically program s := by
  intro d n id name hd hnot hinside
  have hwf := hc.toWellFormed
  have hsit := program.bindings_situated hc
  obtain ⟨hopens, husings⟩ := program.bindings_opens hc
  have hsame := h.bindings_eq (by
    refine eq_nil_iff_forall_not_mem.mpr fun using_ husing => ?_
    obtain ⟨target, htarget⟩ := husings using_ husing
    exact hlexical.usings using_ target htarget)
  have hsymOf : s.bindings.symbolOf? = program.bindings.symbolOf? := by
    funext m
    rw [symbolOf?, symbolOf?, h.blank.nodeSymbols]
  have hlocals : ∀ {m : NodeId}, program.tree.templateParameters m = [] ∨
      (∃ id, program.bindings.symbolOf? m = some id) →
      ((s.localsOf m).findSome? fun table => table.find? name) =
        (firstNamed? program.tree (program.tree.templateParameters m) name).bind
          program.bindings.symbolOf? := by
    intro m hm
    rw [State.localsOf, hsame, ← program.bindings_locals hc hm name]
    cases program.bindings.locals.find? m <;> simp
  obtain ⟨scope, kind, i, hsite, hparts⟩ := hsit.site_of_inside hc hd hnot hinside
  have hplain := plain_of_declares (by simp [hsite.symbolKind]) hparts fun parts heq => by
    simp [Tree.isNamespace_iff.mpr ⟨parts, heq ▸ hsite.kind⟩] at hnot
  obtain ⟨file, hfile, statement, hpar, haround⟩ :=
    hsit.exists_statement hc hsite.scopes fun name hname =>
      hplain.2.2 name (mem_unique hsite.kind hname)
  obtain ⟨hfound, hbetween⟩ := hsite.scopes.find?_file hsit hc hfile hpar haround
  obtain ⟨htables, hfoundFile, htempl⟩ :=
    inside_declaration (s := s) hwf hsite.kind hplain.1 hinside
  have hparam : ((s.tablesOfScope program.tree d).findSome? fun table => table.find? name) =
      parameterNamed? program.tree program.bindings n name := by
    have hparams : program.tree.templateParameters d = kind.templateParameters := by
      simp [Tree.templateParameters, hsite.kind]
    rw [parameterNamed?, htempl, tablesOfScope_of_kind hsite.kind hplain.1]
    by_cases hnone : kind.templateParameters = []
    · rw [(declaring_consistent hc program.registry.paths).templateDeclarationOf hwf hd (fun other hother => by
        rw [← mem_unique hsite.kind hother]
        exact hplain.2.1) (hparams.trans hnone)]
      simp [hnone]
    · rw [Tree.WellFormed.templateDeclarationOf_self (hparams ▸ hnone), bind_some,
        if_neg (by simp [hnone]), hlocals (.inr ⟨id, hd⟩)]
  have haround : ((((program.tree.ancestors d).takeWhile fun scope =>
      !program.tree.isSourceFile scope).flatMap (s.tablesOfScope program.tree)).findSome?
        fun table => table.find? name) =
      (((program.tree.ancestors d).takeWhile fun scope =>
        !program.tree.isSourceFile scope).filterMap s.bindings.symbolOf?).findSome?
          (s.exported? name) := by
    refine findSome?_flatMap_tables fun m hm => ?_
    obtain ⟨parts, hkind⟩ := Tree.isNamespace_iff.mp (hbetween m hm)
    have hnone : program.tree.templateParameters m = [] :=
    Tree.templateParameters_of_kind hkind
    rw [State.tablesOfScope, hkind, findSome?_append, findSome?_exportsOfNode,
      hlocals (.inl hnone), hnone]
    simp [firstNamed?]
  have hopen : (((s.bindings.openNamespacesOf file).flatMap s.exportsOfNode).findSome?
      fun table => table.find? name) = ((opened program.tree file
        (program.tree.children file)).filterMap s.bindings.symbolOf?).findSome?
          (s.exported? name) := by
    rw [(congrArg (openNamespacesOf · file) hsame).trans (hopens file hfile)]
    exact findSome?_flatMap_tables fun m _ => findSome?_exportsOfNode name m
  have hglobal : ((s.mergedExports? globalSymbol).toList.findSome? fun table => table.find? name) =
      s.exported? name globalSymbol := by
    rw [State.exported?]
    cases s.mergedExports? globalSymbol <;> simp
  have hfileLocals : ((s.localsOf file).findSome? fun table => table.find? name) = none := by
    obtain ⟨-, _, _, hkind⟩ := hc.file_root hfile
    have hnone : program.tree.templateParameters file = [] :=
    Tree.templateParameters_of_kind hkind
    rw [hlocals (.inl hnone), hnone]
    rfl
  have houtward := hsite.scopes.enclosing_outward hsit hc hlexical hfile hpar
    ‹statement ∈ _› hnot
  have hresolve : s.resolve? program.tree n name =
      (parameterNamed? program.tree program.bindings n name).or
        ((program.bindings.outward scope.owner).findSome? (s.exported? name)) := by
    rw [State.resolve?, State.visibleTables]
    rw [htables, hfoundFile, hfound, toList_some, flatMap_singleton,
      flatMap_singleton, findSome?_append, findSome?_append, findSome?_append,
      findSome?_append, hparam, haround, hopen, hglobal, hfileLocals, ← houtward, enclosing,
      filterMap_append, findSome?_append, findSome?_append, hsymOf,
      findSome?_singleton, Option.or_none, Option.or_assoc, Option.or_assoc, Option.or_assoc]
  refine ⟨scope.owner, hsite.located, hresolve, ?_⟩
  rw [hresolve, or_eq_none_iff, findSome?_eq_none_iff]

/-- Names depend on the symbols of nodes and namespaces only. -/
theorem resolve?_congr (hbinds : s'.bindings = s.bindings)
    (hmerged : s'.mergedSymbols = s.mergedSymbols) :
    s'.resolve? = s.resolve? ∧ s'.exported? = s.exported? := by
  cases s
  cases s'
  simp only at hbinds hmerged
  subst hbinds hmerged
  exact ⟨rfl, rfl⟩

/-- Checks leave names as they are. -/
theorem ResolvesLexically.frame (h : ResolvesLexically program s) (hframe : Frame none s s') :
    ResolvesLexically program s' := by
  obtain ⟨hresolve, hexported⟩ := resolve?_congr hframe.bindings hframe.mergedSymbols
  rw [ResolvesLexically, hresolve, hexported]
  exact h

/-- Scoping is lexical: without `using` statements, and if blockless namespaces only stand at the
beginning of files, a name in a declaration stands for a template parameter, or else for what the
innermost namespace around the declaration that has such a name exports, whatever has been
checked. -/
theorem resolution_is_lexical (options : Options) (registry : Registry) (files : List SourceFile)
    (hlexical : (Program.ofFiles options registry files).tree.Lexical) :
    ∃ s, prepare (Program.ofFiles options registry files).environment
        (.initial (Program.ofFiles options registry files).bindings) = some ((), s) ∧
      ∀ s', Checked (Program.ofFiles options registry files).environment s s' →
        ResolvesLexically (Program.ofFiles options registry files) s' := by
  have hc : (Program.ofFiles options registry files).environment.tree.Complete :=
    Tree.ofFiles_complete files
  obtain ⟨s, hprepare, hprepared⟩ := exists_prepared hc registry.paths
  exact ⟨s, hprepare, fun s' hchecked =>
    (hprepared.resolvesLexically hc hlexical).frame (hchecked.frame hc.toWellFormed)⟩

/-- A template in a block after a dotted blockless namespace. Another file declares what it refers
to, and something that has the name of one of its parameters. -/
def baskets : Program :=
  .ofFiles .default (Documentation.install .empty) [
    ⟨"fruit", [.namespaceDecl "Store.Food" true [] [],
      .namespaceDecl "Boxes" false [.modelDecl "Crate" ["Size"] none none
        [.required "fruit" "Apple", .required "size" "Size"] []] []]⟩,
    ⟨"sizes", [.namespaceDecl "Store" false
      [.model "Size" [], .model "Apple" []] []]⟩]

/-- In the template the parameter hides the declaration of the other file. Apples are looked for in
the namespace `Boxes`, then in `Store.Food`, in `Store` and in the global namespace. -/
theorem resolution_is_lexical_baskets :
    baskets.tree.Lexical ∧
      ∃ s, prepare baskets.environment (.initial baskets.bindings) = some ((), s) ∧
        s.resolve? baskets.tree ⟨24⟩ "Size" = some ⟨24⟩ ∧
        s.resolve? baskets.tree ⟨24⟩ "Apple" =
          [⟨22⟩, ⟨21⟩, ⟨20⟩, ⟨0⟩].findSome? (s.exported? "Apple") := by
  have hlexical : baskets.tree.Lexical := by decide +kernel
  obtain ⟨s, hprepare, hresolves⟩ := resolution_is_lexical _ _ _ hlexical
  have hs : ResolvesLexically baskets s := hresolves s .refl
  have hcrate : baskets.bindings.symbolOf? ⟨29⟩ = some ⟨23⟩ := by decide +kernel
  have hinside : ⟨29⟩ ∈ baskets.tree.ancestors ⟨24⟩ := by decide +kernel
  refine ⟨hlexical, s, hprepare, ?_, ?_⟩
  · obtain ⟨owner, -, hsize, -⟩ := hs _ _ _ "Size" hcrate (by decide +kernel) hinside
    rw [hsize, show parameterNamed? baskets.tree baskets.bindings ⟨24⟩ "Size" = some ⟨24⟩ by
      decide +kernel, some_or]
  · obtain ⟨owner, howner, happle, -⟩ := hs _ _ _ "Apple" hcrate (by decide +kernel) hinside
    have hchain : (baskets.bindings.namespaceOf? ⟨29⟩).map baskets.bindings.outward =
      some [⟨22⟩, ⟨21⟩, ⟨20⟩, ⟨0⟩] := by decide +kernel
    rw [howner, map_some, Option.some.injEq] at hchain
    rw [happle, hchain, show parameterNamed? baskets.tree baskets.bindings ⟨24⟩ "Apple" = none by
      decide +kernel, none_or]

/-- If one statement of a file holds a blockless namespace, the file has the innermost namespace
open first: what it has open are that namespace and, outward, the namespaces around it. -/
theorem openNamespaces_outward (options : Options) (registry : Registry) (files : List SourceFile)
    (hfile : file ∈ (Program.ofFiles options registry files).tree.files)
    (honly : (Program.ofFiles options registry files).tree.OnlyCaptor file statement m)
    (hm : (Program.ofFiles options registry files).bindings.symbolOf? m = some id) :
    ((Program.ofFiles options registry files).bindings.openNamespacesOf file).filterMap
        (Program.ofFiles options registry files).bindings.symbolOf? ++ [globalSymbol] =
      (Program.ofFiles options registry files).bindings.outward id := by
  have hc := (Reached.initial options registry files).complete
  have hsituated := Program.bindings_situated _ hc
  have hparent := hc.parent_of_mem honly.1
  obtain ⟨⟨parts, hkind, -⟩, haround⟩ := hc.captorWithin_spec honly.2.1
  obtain ⟨scope, i, hsite⟩ := hsituated.site_of_namespace hc hm hkind (hc.ne_global hparent haround)
  rw [(Program.bindings_opens _ hc).1 file hfile, honly.opened_eq hc]
  exact chain_outward hsituated hc hfile hparent honly.2.2 hsite hm haround

/-- What the file of the baskets has open. -/
theorem openNamespaces_outward_baskets :
    baskets.tree.OnlyCaptor ⟨31⟩ ⟨21⟩ ⟨20⟩ ∧
      (baskets.bindings.openNamespacesOf ⟨31⟩).filterMap baskets.bindings.symbolOf? ++
        [globalSymbol] = baskets.bindings.outward ⟨21⟩ := by
  have honly : baskets.tree.OnlyCaptor ⟨31⟩ ⟨21⟩ ⟨20⟩ :=
    ⟨by decide +kernel, by decide +kernel, by decide +kernel⟩
  exact ⟨honly, openNamespaces_outward _ _ _ (by decide +kernel) honly (by decide +kernel)⟩

/-- Of two blockless namespaces in one file the second is inside the first and comes after it. -/
theorem openNamespaces_outer_first :
    let bindings := (Program.ofFiles .default .empty [⟨"main",
      [.namespaceDecl "Outer" true [] [], .namespaceDecl "Inner" true [] []]⟩]).bindings
    (bindings.openNamespacesOf ⟨22⟩).filterMap bindings.symbolOf? = [⟨20⟩, ⟨21⟩] ∧
      bindings.outward ⟨21⟩ = [⟨21⟩, ⟨20⟩, globalSymbol] := by
  decide +kernel

end Checking
end ApiSchema
