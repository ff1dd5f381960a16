import ApiSchema.Checking.Template
import Mathlib.Data.List.Basic

/-!
# Well-formed trees

A tree is well formed if parents and children agree, children come before their parents, and every
kind of node stands where it may stand: files in no other node, statements only in files and
namespaces, template parameters only as those of a declaration. In such a tree a
declaration with template parameters is inside no other one, so that all nodes inside a declaration
have the same template declaration around them.
-/

namespace ApiSchema

open Option List NodeKind

variable {kind : NodeKind} {p n m : NodeId}

/-- The places where a node of a kind can stand. -/
inductive NodeRole where
  /-- In no other node. -/
  | file
  /-- In a file or in a namespace. -/
  | statement
  /-- Among the template parameters of a declaration. -/
  | parameter
  /-- Anywhere inside a statement. -/
  | part
  deriving DecidableEq

namespace NodeKind

/-- The place of a kind of node. Operations stand in interfaces too. -/
def role : NodeKind → NodeRole
  | sourceFile .. => .file
  | namespaceStatement .. | usingStatement .. | modelStatement .. | interfaceStatement ..
  | enumStatement .. | aliasStatement .. | intrinsicStatement .. => .statement
  | templateParameterDeclaration .. => .parameter
  | _ => .part

/-- Whether a node holds statements. -/
def isScope : NodeKind → Bool
  | sourceFile .. | namespaceStatement .. => true
  | _ => false

attribute [simp] isScope.eq_1 isScope.eq_2 isScope.eq_3

/-- Whether a node is a statement of a file. -/
def isStatement : NodeKind → Bool
  | modelStatement .. | namespaceStatement .. | usingStatement .. | operationStatement ..
  | interfaceStatement .. | enumStatement .. | aliasStatement .. => true
  | _ => false

theorem role_of_isScope (h : kind.isScope = true) :
    kind.role = .file ∨ kind.role = .statement := by
  cases kind <;> simp_all [isScope, role]

theorem templateParameters_of_isScope (h : kind.isScope = true) :
    kind.templateParameters = [] := by
  cases kind <;> simp_all [isScope, templateParameters]

theorem role_of_mem_templateParameters (h : p ∈ kind.templateParameters) :
    kind.role = .statement := by
  cases kind <;> simp_all [templateParameters, role]

theorem templateParameters_sublist (kind : NodeKind) :
    kind.templateParameters.Sublist kind.children := by
  cases kind with
  | modelStatement parts =>
    exact ((sublist_append_right _ _).trans (sublist_append_left _ _)).trans
      ((sublist_append_left _ _).trans (sublist_append_left _ _))
  | interfaceStatement parts =>
    exact ((sublist_append_right _ _).trans (sublist_append_left _ _)).trans
      (sublist_append_left _ _)
  | aliasStatement parts => exact sublist_append_left _ _
  | _ => exact nil_sublist _

theorem decorators_subset (kind : NodeKind) : kind.decorators ⊆ kind.children := by
  cases kind <;> simp [decorators, children]

end NodeKind

namespace Tree

/-- Parents and children agree, children come first, and every node stands where it may. -/
structure WellFormed (tree : Tree) : Prop where
  parent_of_mem {n m : NodeId} : n ∈ tree.children m → tree.parent? n = some m
  mem_of_parent {n m : NodeId} : tree.parent? n = some m → n ∈ tree.children m
  lt_of_parent {n m : NodeId} : tree.parent? n = some m → n.index < m.index
  nodup (m : NodeId) : (tree.children m).Nodup
  parent_of_file {n : NodeId} {kind : NodeKind} : tree.kind? n = some kind → kind.role = .file →
    tree.parent? n = none
  scope_of_statement {n m : NodeId} {kind outer : NodeKind} : tree.parent? n = some m →
    tree.kind? n = some kind → kind.role = .statement → tree.kind? m = some outer →
    outer.isScope = true
  parameter_iff {n m : NodeId} {kind : NodeKind} : tree.parent? n = some m →
    tree.kind? n = some kind → (kind.role = .parameter ↔ n ∈ tree.templateParameters m)
  operation_parameters {n : NodeId} {parts : OperationNode} :
    tree.kind? n = some (.operationStatement parts) →
    ∃ members, tree.kind? parts.parameters = some (.modelExpression members)
  role_of_decorator {n d : NodeId} {kind : NodeKind} : d ∈ tree.decorators n →
    tree.kind? d = some kind → kind.role = .part

variable {tree : Tree}

/-- What is read off a list of nodes is read off each of them. -/
theorem exists_of_mapM {β : Type} {ids : List NodeId} {read : NodeId → Option β} {values : List β}
    (h : ids.mapM read = some values) : ∀ c ∈ ids, ∃ value ∈ values, read c = some value := by
  induction ids generalizing values with
  | nil => simp
  | cons id rest ih =>
    simp only [mapM_cons, bind_eq_bind, bind_eq_some_iff] at h
    obtain ⟨value, hvalue, others, hothers, heq⟩ := h
    obtain rfl : value :: others = values := Option.some.inj heq
    refine forall_mem_cons.mpr ⟨⟨value, mem_cons_self, hvalue⟩, fun c hc => ?_⟩
    obtain ⟨found, hfound, hread⟩ := ih hothers c hc
    exact ⟨found, mem_cons_of_mem _ hfound, hread⟩

theorem index_lt_size_of_kind (h : tree.kind? n = some kind) :
    n.index < tree.size := by
  by_contra hge
  have hnone : tree.nodes.get? n = none := Table.get?_eq_none_iff.mpr (Nat.le_of_not_lt hge)
  simp [kind?, node?, hnone] at h

theorem exists_kind_of_parent (h : tree.parent? n = some m) :
    ∃ kind, tree.kind? n = some kind := by
  cases hn : tree.node? n with
  | none => simp [parent?, hn] at h
  | some node => exact ⟨node.kind, by simp [kind?, hn]⟩

theorem exists_kind_of_mem_children (h : n ∈ tree.children m) :
    ∃ kind, tree.kind? m = some kind ∧ n ∈ kind.children := by
  cases hm : tree.kind? m with
  | none => simp [children, hm] at h
  | some kind => exact ⟨kind, rfl, by simpa [children, hm] using h⟩

/-- The decorators of a node are among its children. -/
theorem mem_children_of_decorator {d : NodeId} (h : d ∈ tree.decorators n) :
    d ∈ tree.children n := by
  cases hn : tree.kind? n with
  | none => simp [decorators, hn] at h
  | some kind =>
    simp only [decorators, hn, map_some, getD_some] at h
    simpa [children, hn] using kind.decorators_subset h

/-- The template parameters of a node are those of its kind. -/
theorem templateParameters_of_kind (hkind : tree.kind? n = some kind) :
    tree.templateParameters n = kind.templateParameters := by
  simp [templateParameters, hkind]

theorem mem_templateParameters (h : p ∈ tree.templateParameters n) :
    ∃ kind, tree.kind? n = some kind ∧ p ∈ kind.templateParameters := by
  cases hn : tree.kind? n with
  | none => simp [templateParameters, hn] at h
  | some kind => exact ⟨kind, rfl, by simpa [templateParameters, hn] using h⟩

theorem exists_parameter_of_ne_nil (h : tree.templateParameters n ≠ []) :
    ∃ kind, tree.kind? n = some kind ∧ kind.role = .statement := by
  obtain ⟨p, hp⟩ := exists_mem_of_ne_nil _ h
  obtain ⟨kind, hkind, hmem⟩ := mem_templateParameters hp
  exact ⟨kind, hkind, role_of_mem_templateParameters hmem⟩

namespace WellFormed

variable (hwf : tree.WellFormed)

include hwf

theorem exists_kind_parent (h : tree.parent? n = some m) :
    ∃ kind, tree.kind? m = some kind ∧ n ∈ kind.children :=
  exists_kind_of_mem_children (hwf.mem_of_parent h)

theorem parent_lt_size (h : tree.parent? n = some m) : m.index < tree.size := by
  obtain ⟨kind, hkind, -⟩ := hwf.exists_kind_parent h
  exact index_lt_size_of_kind hkind

theorem parent_of_statement {parts : NamespaceNode}
    (hkind : tree.kind? m = some (.namespaceStatement parts)) (h : n ∈ parts.statements) :
    tree.parent? n = some m :=
  hwf.parent_of_mem (by simp [children, hkind, h])

theorem parameter_parent (h : p ∈ tree.templateParameters n) :
    tree.parent? p = some n := by
  obtain ⟨kind, hkind, hmem⟩ := mem_templateParameters h
  apply hwf.parent_of_mem
  simpa [children, hkind] using kind.templateParameters_sublist.subset hmem

theorem exists_parameter_name (h : p ∈ tree.templateParameters n) :
    ∃ name, tree.kind? p = some (.templateParameterDeclaration name) := by
  have hp := hwf.parameter_parent h
  obtain ⟨kind, hkind⟩ := exists_kind_of_parent hp
  have hrole := (hwf.parameter_iff hp hkind).mpr h
  cases kind with
  | templateParameterDeclaration name => exact ⟨name, hkind⟩
  | _ => simp [role] at hrole

/-- A parameter is listed once. -/
theorem parameters_nodup (n : NodeId) : (tree.templateParameters n).Nodup := by
  cases hn : tree.kind? n with
  | none => simp [templateParameters, hn]
  | some kind =>
    have hnodup := hwf.nodup n
    simp only [children, templateParameters, hn, map_some, getD_some] at hnodup ⊢
    exact hnodup.sublist kind.templateParameters_sublist

/-! ### The nodes around a node -/

/-- Parents have larger positions, so a walk upwards that may go on to the last position is
complete. -/
theorem ancestorsWithin_stable {d e : Nat} (hd : tree.size ≤ n.index + d)
    (he : tree.size ≤ n.index + e) : tree.ancestorsWithin d n = tree.ancestorsWithin e n := by
  induction d generalizing n e with
  | zero =>
    cases e with
    | zero => rfl
    | succ e =>
      have hnone : tree.parent? n = none := by
        cases hp : tree.parent? n with
        | none => rfl
        | some m =>
          have hlt := hwf.lt_of_parent hp
          have hm := hwf.parent_lt_size hp
          omega
      simp [ancestorsWithin, hnone]
  | succ d ih =>
    cases hp : tree.parent? n with
    | none => cases e <;> simp [ancestorsWithin, hp]
    | some m =>
      have hlt := hwf.lt_of_parent hp
      have hm := hwf.parent_lt_size hp
      cases e with
      | zero => omega
      | succ e =>
        have hrest : tree.ancestorsWithin d m = tree.ancestorsWithin e m := ih (by omega) (by omega)
        simp only [ancestorsWithin, hp, hrest]

/-- A walk upwards goes on at the parent. -/
theorem ancestors_of_parent (h : tree.parent? n = some m) :
    tree.ancestors n = m :: tree.ancestors m := by
  have hlt := hwf.lt_of_parent h
  have hm := hwf.parent_lt_size h
  obtain ⟨d, hd⟩ : ∃ d, tree.size = d + 1 := ⟨tree.size - 1, by omega⟩
  have hrest : tree.ancestorsWithin d m = tree.ancestorsWithin (d + 1) m :=
    hwf.ancestorsWithin_stable (by omega) (by omega)
  rw [ancestors, ancestors, hd, ← hrest]
  simp only [ancestorsWithin, h]

omit hwf in
/-- It ends at a root. -/
theorem ancestors_of_root (h : tree.parent? n = none) : tree.ancestors n = [] := by
  rw [ancestors]
  cases tree.size <;> simp [ancestorsWithin, h]

/-- Whatever stands around a node is its parent or stands around that. -/
theorem exists_parent_of_mem_ancestors (h : m ∈ tree.ancestors n) :
    ∃ p, tree.parent? n = some p ∧ m ∈ tree.selfAndAncestors p := by
  cases hp : tree.parent? n with
  | none => simp [ancestors_of_root hp] at h
  | some p =>
    rw [hwf.ancestors_of_parent hp] at h
    exact ⟨p, rfl, h⟩

/-- Induction from parents to children. -/
theorem upward_induction {P : NodeId → Prop}
    (step : ∀ n, (∀ m, tree.parent? n = some m → P m) → P n) (n : NodeId) : P n := by
  induction hk : tree.size - n.index using Nat.strongRecOn generalizing n with
  | ind k ih =>
    refine step n fun m hm => ih _ ?_ m rfl
    have hlt := hwf.lt_of_parent hm
    have hsize := hwf.parent_lt_size hm
    omega

theorem selfAndAncestors_of_parent (h : tree.parent? n = some m) :
    tree.selfAndAncestors n = n :: tree.selfAndAncestors m := by
  rw [selfAndAncestors, hwf.ancestors_of_parent h]
  rfl

theorem parent_mem_selfAndAncestors (h : tree.parent? n = some m) :
    m ∈ tree.selfAndAncestors n := by
  rw [hwf.selfAndAncestors_of_parent h]
  exact .tail _ (.head _)

/-- What stands around a node comes later. -/
theorem lt_of_mem_ancestors (h : m ∈ tree.ancestors n) : n.index < m.index := by
  induction n using hwf.upward_induction with
  | step n ih =>
    obtain ⟨p, hp, h⟩ := hwf.exists_parent_of_mem_ancestors h
    rcases mem_cons.mp h with rfl | h
    · exact hwf.lt_of_parent hp
    · exact Nat.lt_trans (hwf.lt_of_parent hp) (ih p hp h)

theorem index_le_of_mem_selfAndAncestors (h : m ∈ tree.selfAndAncestors n) :
    n.index ≤ m.index := by
  rcases mem_cons.mp h with rfl | h
  · exact Nat.le_refl _
  · exact Nat.le_of_lt (hwf.lt_of_mem_ancestors h)

/-- Nodes are nested in each other. -/
theorem selfAndAncestors_trans {k : NodeId} (hm : m ∈ tree.selfAndAncestors n)
    (hk : k ∈ tree.selfAndAncestors m) : k ∈ tree.selfAndAncestors n := by
  induction n using hwf.upward_induction with
  | step n ih =>
    rw [selfAndAncestors, mem_cons] at hm
    rcases hm with rfl | hm
    · exact hk
    · obtain ⟨p, hp, hm⟩ := hwf.exists_parent_of_mem_ancestors hm
      rw [hwf.selfAndAncestors_of_parent hp]
      exact .tail _ (ih p hp hm)

/-- Nodes with the same parent have nothing in common. -/
theorem not_mem_selfAndAncestors_of_sibling {a b : NodeId} (hp : tree.parent? a = tree.parent? b)
    (hne : a ≠ b) (ha : a ∈ tree.selfAndAncestors n) : b ∉ tree.selfAndAncestors n := by
  induction n using hwf.upward_induction with
  | step n ih =>
    intro hb
    rw [selfAndAncestors, mem_cons] at ha hb
    cases hn : tree.parent? n with
    | none =>
      simp only [ancestors_of_root hn, not_mem_nil, or_false] at ha hb
      exact hne (ha.trans hb.symm)
    | some m =>
      rw [hwf.ancestors_of_parent hn] at ha hb
      rcases ha with rfl | ha <;> rcases hb with rfl | hb
      · exact hne rfl
      · have hlt := hwf.lt_of_parent (hp.symm.trans hn)
        have hle := hwf.index_le_of_mem_selfAndAncestors hb
        omega
      · have hlt := hwf.lt_of_parent (hp.trans hn)
        have hle := hwf.index_le_of_mem_selfAndAncestors ha
        omega
      · exact ih m hn ha hb

/-- Around a statement there are only files and namespaces. -/
theorem isScope_of_mem_ancestors {outer : NodeKind} (hkind : tree.kind? n = some kind)
    (hrole : kind.role = .statement) (hm : m ∈ tree.ancestors n)
    (houter : tree.kind? m = some outer) : outer.isScope = true := by
  induction n using hwf.upward_induction generalizing kind with
  | step n ih =>
    obtain ⟨p, hp, hm⟩ := hwf.exists_parent_of_mem_ancestors hm
    obtain ⟨pkind, hpkind, -⟩ := hwf.exists_kind_parent hp
    have hscope := hwf.scope_of_statement hp hkind hrole hpkind
    rcases mem_cons.mp hm with rfl | hm
    · rw [hpkind, Option.some.injEq] at houter
      exact houter ▸ hscope
    · rcases role_of_isScope hscope with hfile | hrole
      · simp [ancestors_of_root (hwf.parent_of_file hpkind hfile)] at hm
      · exact ih p hp hpkind hrole hm

/-- No template stands around a statement. -/
theorem templateParameters_of_mem_ancestors (hkind : tree.kind? n = some kind)
    (hrole : kind.role = .statement) (hm : m ∈ tree.ancestors n) :
    tree.templateParameters m = [] := by
  by_contra hne
  obtain ⟨outer, houter, -⟩ := exists_parameter_of_ne_nil hne
  have hscope := hwf.isScope_of_mem_ancestors hkind hrole hm houter
  exact hne (by simp [templateParameters, houter, templateParameters_of_isScope hscope])

/-! ### The template declaration around a node -/

omit hwf in
/-- A declaration with template parameters is the template declaration around itself. -/
theorem templateDeclarationOf_self (h : tree.templateParameters n ≠ []) :
    tree.templateDeclarationOf? n = some n := by
  simp [templateDeclarationOf?, selfAndAncestors, h]

/-- A statement without template parameters is in no template. -/
theorem templateDeclarationOf_statement (hkind : tree.kind? n = some kind)
    (hrole : kind.role = .statement) (h : tree.templateParameters n = []) :
    tree.templateDeclarationOf? n = none := by
  have hnone : ∀ m ∈ tree.ancestors n, tree.templateParameters m = [] := fun m hm =>
    hwf.templateParameters_of_mem_ancestors hkind hrole hm
  simpa [templateDeclarationOf?, selfAndAncestors, h] using hnone

/-- A file or a namespace is in no template. -/
theorem templateDeclarationOf_scope (hkind : tree.kind? n = some kind)
    (hscope : kind.isScope = true) : tree.templateDeclarationOf? n = none := by
  have hnone : tree.templateParameters n = [] := by
    simp [templateParameters, hkind, templateParameters_of_isScope hscope]
  rcases role_of_isScope hscope with hfile | hrole
  · simp [templateDeclarationOf?, selfAndAncestors, hnone,
      ancestors_of_root (hwf.parent_of_file hkind hfile)]
  · exact hwf.templateDeclarationOf_statement hkind hrole hnone

/-- A node that declares no template parameters is in the same template as its parent. -/
theorem templateDeclarationOf_parent (hp : tree.parent? n = some m)
    (h : tree.templateParameters n = []) :
    tree.templateDeclarationOf? n = tree.templateDeclarationOf? m := by
  rw [templateDeclarationOf?, templateDeclarationOf?, selfAndAncestors, selfAndAncestors,
    hwf.ancestors_of_parent hp, find?_cons_of_neg (by simp [h])]

/-- Whatever stands in a node that holds no statements is in the same template as that node. -/
theorem templateDeclarationOf_child (hkind : tree.kind? m = some kind)
    (hscope : kind.isScope = false) (hn : n ∈ kind.children) :
    tree.templateDeclarationOf? n = tree.templateDeclarationOf? m := by
  have hp : tree.parent? n = some m := hwf.parent_of_mem (by simpa [children, hkind] using hn)
  apply hwf.templateDeclarationOf_parent hp
  by_contra hne
  obtain ⟨inner, hinner, hrole⟩ := exists_parameter_of_ne_nil hne
  have := hwf.scope_of_statement hp hinner hrole hkind
  simp [hscope] at this

/-- A declaration with template parameters around a node is the template declaration around it. -/
theorem templateDeclarationOf_of_mem_ancestors (hm : m ∈ tree.ancestors n)
    (hne : tree.templateParameters m ≠ []) : tree.templateDeclarationOf? n = some m := by
  have hself : tree.templateParameters n = [] := by
    by_contra hn
    obtain ⟨kind, hkind, hrole⟩ := exists_parameter_of_ne_nil hn
    exact hne (hwf.templateParameters_of_mem_ancestors hkind hrole hm)
  induction n using hwf.upward_induction with
  | step n ih =>
    obtain ⟨p, hp, hm⟩ := hwf.exists_parent_of_mem_ancestors hm
    rw [hwf.templateDeclarationOf_parent hp hself]
    rcases mem_cons.mp hm with rfl | hm
    · exact templateDeclarationOf_self hne
    · refine ih p hp hm ?_
      by_contra hpne
      obtain ⟨kind, hkind, hrole⟩ := exists_parameter_of_ne_nil hpne
      exact hne (hwf.templateParameters_of_mem_ancestors hkind hrole hm)

/-- A template parameter is in the template it belongs to. -/
theorem templateDeclarationOf_parameter (h : p ∈ tree.templateParameters n) :
    tree.templateDeclarationOf? p = some n := by
  have hne : tree.templateParameters n ≠ [] := ne_nil_of_mem h
  apply hwf.templateDeclarationOf_of_mem_ancestors _ hne
  rw [hwf.ancestors_of_parent (hwf.parameter_parent h)]
  exact .head _

end WellFormed

end Tree

end ApiSchema
