import ApiSchema.Proofs.Checking.Answers
import ApiSchema.Proofs.Checking.Session
import Mathlib.Data.Finset.Card
import Mathlib.Logic.Relation

/-!
# Programs without templates are checked to the end

Models, interfaces and aliases are marked while they are checked, and namespaces once and for all; a
reference that leads back to one of them stops there. Enums are known before their members are
checked. Operations that stand on their own, and enums up to their members, are not marked, so that
they must not lead back to themselves through each other. If they do not, then every check has a
measure that is larger than those of the checks it calls for: first the number of declarations that
are neither known nor marked, then how far the node can lead through declarations that are not
marked, then the position of the node.
-/

namespace ApiSchema

open Relation NodeKind Finset Option

variable {tree : Tree} {n c d : NodeId} {kind : NodeKind} {parts : EnumNode}

namespace Tree

/-- Whether a declaration is not marked while it is checked: it is an operation that stands on its
own, or an enum. -/
def isUnmarked (tree : Tree) (node : NodeId) : Bool :=
  match tree.kind? node with
  | some (.operationStatement _) => !tree.isMember node
  | some (.enumStatement _) => true
  | _ => false

/-- Whether a node is checked before the type of a declaration is known: it is one in an operation,
or in the decorators of an enum. -/
def exposes (tree : Tree) (declaration node : NodeId) : Bool :=
  match tree.kind? declaration with
  | some (.operationStatement _) => declaration ∈ tree.selfAndAncestors node
  | some (.enumStatement _) =>
    (tree.decorators declaration).any fun d => d ∈ tree.selfAndAncestors node
  | _ => false

/-- The type of a node is asked for where the node stands, and not through another node: it is no
member of an enum, no property and no operation of an interface. -/
def IsDirect (tree : Tree) (node : NodeId) : Prop :=
  match tree.kind? node with
  | some (.enumMember _) | some (.modelProperty _) | none => False
  | some (.operationStatement _) => tree.isMember node = false
  | some _ => True

/-- What is not marked is a node of the tree. -/
theorem index_lt_of_isUnmarked (h : tree.isUnmarked n = true) :
    n.index < tree.size := by
  rw [isUnmarked] at h
  split at h
  · exact index_lt_size_of_kind ‹_›
  · exact index_lt_size_of_kind ‹_›
  · simp at h

/-- What is asked for is a node. -/
theorem IsDirect.exists_kind (h : tree.IsDirect n) :
    ∃ kind, tree.kind? n = some kind := by
  cases hkind : tree.kind? n with
  | none => simp [IsDirect, hkind] at h
  | some kind => exact ⟨kind, rfl⟩

namespace WellFormed

variable (hwf : tree.WellFormed)

include hwf

/-- A node stands around its children. -/
theorem mem_ancestors_of_mem_children (h : c ∈ tree.children n) : n ∈ tree.ancestors c := by
  simp [hwf.ancestors_of_parent (hwf.parent_of_mem h)]

/-- What is needed by a node stands inside it. -/
theorem mem_ancestors_of_needs (h : tree.Needs n c) : n ∈ tree.ancestors c := by
  induction h with
  | @operand n c kind hkind hc =>
    refine hwf.mem_ancestors_of_mem_children ?_
    simpa [children, hkind] using kind.operands_subset hc
  | @inside n m c hm _ ih =>
    have hself : n ∈ tree.selfAndAncestors m :=
      List.mem_cons_of_mem _ (hwf.mem_ancestors_of_mem_children hm)
    have hmem := hwf.selfAndAncestors_trans (List.mem_cons_of_mem c ih) hself
    refine (List.mem_cons.mp hmem).resolve_left ?_
    rintro rfl
    have hlt := hwf.lt_of_parent (hwf.parent_of_mem hm)
    have hle := hwf.index_le_of_mem_selfAndAncestors (.tail _ ih)
    omega

/-- What stands in an exposed node is exposed. -/
theorem exposes_inside (h : tree.exposes d n = true) (hc : n ∈ tree.ancestors c) :
    tree.exposes d c = true := by
  have hself : n ∈ tree.selfAndAncestors c := List.mem_cons_of_mem _ hc
  rw [exposes] at h ⊢
  split at h
  · exact decide_eq_true (hwf.selfAndAncestors_trans hself (of_decide_eq_true h))
  · obtain ⟨x, hx, hmem⟩ := List.any_eq_true.mp h
    refine List.any_eq_true.mpr ⟨x, hx, ?_⟩
    exact decide_eq_true (hwf.selfAndAncestors_trans hself (of_decide_eq_true hmem))
  · exact h

end WellFormed

/-- What a node needs is direct. -/
theorem Needs.isDirect (hgram : tree.Grammatical) (h : tree.Needs n c) :
    tree.IsDirect c := by
  induction h with
  | operand hkind hc =>
    obtain ⟨kind, hkind, hexpr⟩ := hgram.operand hkind hc
    rw [IsDirect, hkind]
    cases kind <;> simp_all [isExpression]
  | inside _ _ ih => exact ih

/-- The statements of files and namespaces are direct. -/
theorem Grammatical.isDirect (hgram : tree.Grammatical) (hwf : tree.WellFormed)
    (hkind : tree.kind? n = some kind) (hc : c ∈ kind.statements) : tree.IsDirect c := by
  obtain ⟨inner, hinner, htop⟩ := hgram.statement hkind hc
  have hpar : tree.parent? c = some n :=
    hwf.parent_of_mem (by simpa [children, hkind] using kind.statements_subset hc)
  have hmember : tree.isMember c = false := by
    rw [isMember, hpar, bind_some, hkind]
    cases kind <;> simp_all [statements]
  rw [IsDirect, hinner]
  cases inner <;> simp_all [isTopLevel, isStatement]

end Tree

/-! ### How much is left to do -/

/-- An upper bound of how deeply the check of a node nests: what counts is first how many
declarations are not settled, then the weight of the node, which is at most `size + 2`, and then its
index. -/
def effort (size unsettled weight index : Nat) : Nat :=
  (unsettled * (size + 3) + weight) * (size + 1) + index

section

variable {size unsettled unsettled' weight weight' index index' : Nat}

/-- Effort grows with all that counts. -/
theorem effort_mono (h : unsettled ≤ unsettled') (hweight : weight ≤ weight')
    (hindex : index ≤ index') :
    effort size unsettled weight index ≤ effort size unsettled' weight' index' := by
  have hmore : unsettled * (size + 3) + weight ≤ unsettled' * (size + 3) + weight' :=
    Nat.add_le_add (Nat.mul_le_mul_right _ h) hweight
  exact Nat.add_le_add (Nat.mul_le_mul_right _ hmore) hindex

/-- Less weight is less effort, whatever the index. -/
theorem effort_lt_of_weight (h : weight < weight') (hindex : index ≤ size) :
    effort size unsettled weight index < effort size unsettled weight' index' := by
  have hstep : (unsettled * (size + 3) + weight + 1) * (size + 1) ≤
      (unsettled * (size + 3) + weight') * (size + 1) := Nat.mul_le_mul_right _ (by omega)
  rw [Nat.add_mul _ 1] at hstep
  unfold effort
  omega

/-- Less to settle is less effort, whatever the weight. -/
theorem effort_lt_of_unsettled (h : unsettled < unsettled') (hweight : weight ≤ size + 2)
    (hindex : index ≤ size) :
    effort size unsettled weight index < effort size unsettled' weight' index' := by
  have hfewer : (unsettled + 1) * (size + 3) ≤ unsettled' * (size + 3) :=
    Nat.mul_le_mul_right _ (by omega)
  rw [Nat.add_mul, Nat.one_mul] at hfewer
  have hstep : (unsettled * (size + 3) + weight + 1) * (size + 1) ≤
      (unsettled' * (size + 3) + weight') * (size + 1) := Nat.mul_le_mul_right _ (by omega)
  rw [Nat.add_mul _ 1] at hstep
  unfold effort
  omega

end

namespace Checking

open State Tree

variable {env : Environment} {check : Check} {node : NodeId} {p s s' s₁ : State}

/-- Whether a declaration is known or marked, so that its check calls for nothing. -/
def State.settles (s : State) (tree : Tree) (node : NodeId) : Bool :=
  match tree.kind? node with
  | some (.modelStatement _) | some (.interfaceStatement _) =>
    (s.declaredTypeOfNode? node).isSome || (s.pending.find? (node, [])).isSome
  | some (.aliasStatement _) => (s.declaredTypeOfNode? node).isSome || s.openAliases.contains (node, [])
  | some (.enumStatement _) => (s.declaredTypeOfNode? node).isSome
  | some (.namespaceStatement _) => s.checkedNamespaces.contains node
  | _ => true

/-- The number of declarations that are neither known nor marked. -/
def State.unsettled (s : State) (tree : Tree) : Nat :=
  ((range tree.size).filter fun i => s.settles tree ⟨i⟩ = false).card

/-- All that is settled in the first state is settled in the second one. -/
def State.SettlesMore (s s' : State) (tree : Tree) : Prop :=
  ∀ n, s.settles tree n = true → s'.settles tree n = true

/-- What is unsettled later was so before. -/
theorem State.SettlesMore.filter_subset (h : s.SettlesMore s' tree) :
    ((range tree.size).filter fun i => s'.settles tree ⟨i⟩ = false) ⊆
      (range tree.size).filter fun i => s.settles tree ⟨i⟩ = false := by
  intro i hi
  rw [mem_filter] at hi ⊢
  refine ⟨hi.1, Bool.eq_false_iff.mpr fun hset => ?_⟩
  simp [h _ hset] at hi

/-- What is settled stays settled. -/
theorem State.SettlesMore.unsettled_le (h : s.SettlesMore s' tree) :
    s'.unsettled tree ≤ s.unsettled tree :=
  card_le_card h.filter_subset

/-- There is less to settle once a node is settled. -/
theorem State.SettlesMore.unsettled_lt (h : s.SettlesMore s' tree)
    (hbefore : s.settles tree node = false) (hafter : s'.settles tree node = true)
    (hnode : node.index < tree.size) : s'.unsettled tree < s.unsettled tree := by
  refine card_lt_card ⟨h.filter_subset, fun hsubset => ?_⟩
  have hmem := hsubset (mem_filter.mpr ⟨mem_range.mpr hnode, hbefore⟩)
  simp [hafter] at hmem

/-- What is declared stays declared. -/
theorem Retains.isSome_declaredTypeOfNode (h : Retains s s')
    (hknown : (s.declaredTypeOfNode? node).isSome = true) :
    (s'.declaredTypeOfNode? node).isSome = true := by
  obtain ⟨t, ht⟩ := isSome_iff_exists.mp hknown
  obtain ⟨id, hid, hdecl⟩ := bind_eq_some_iff.mp ht
  obtain ⟨t', ht'⟩ := h.declared hdecl
  rw [declaredTypeOfNode?, h.bindings, hid, bind_some, ht']
  rfl

/-- Nothing is forgotten if all that is known or marked stays known or marked. -/
theorem State.SettlesMore.of_marks
    (hdecl : ∀ n, (s.declaredTypeOfNode? n).isSome = true →
      (s'.declaredTypeOfNode? n).isSome = true)
    (hpend : ∀ n, (s.pending.find? (n, [])).isSome = true →
      (s'.pending.find? (n, [])).isSome = true)
    (haliases : s.openAliases ⊆ s'.openAliases)
    (hvisited : s.checkedNamespaces ⊆ s'.checkedNamespaces) : s.SettlesMore s' tree := by
  intro n hset
  rw [settles] at hset ⊢
  split at hset
  iterate 2
    · rw [Bool.or_eq_true] at *
      exact hset.imp (hdecl n) (hpend n)
  · rw [Bool.or_eq_true, List.contains_iff_mem] at *
    exact hset.imp (hdecl n) fun hmem => haliases hmem
  · exact hdecl n hset
  · exact List.contains_iff_mem.mpr (hvisited (List.contains_iff_mem.mp hset))
  · trivial

/-- What is retained stays settled. -/
theorem Retains.settlesMore (h : Retains s s') : s.SettlesMore s' tree :=
  .of_marks (fun _ => h.isSome_declaredTypeOfNode) (fun _ => by rw [h.pending]; exact id)
    (h.openAliases ▸ List.Subset.refl _) h.visited

/-! ### Declarations that are marked -/

/-- A computation goes on after a part that has an answer. -/
theorem Ends.after {α β : Type} {x : CheckM α} {f : α → CheckM β}
    (hx : ∃ a s', x env s = some (a, s')) (hf : ∀ a, Ends env (f a)) :
    ∃ b s', (x >>= f) env s = some (b, s') := by
  obtain ⟨a, s₁, hrun⟩ := hx
  rw [bind_of_run hrun]
  exact hf a s₁

section

variable (hctx : s.context = none) (hplain : env.tree.templateParameters node = [])

include hctx in
/-- Outside of templates the type of a node is the declared one. -/
theorem settledType?_of_context : s.settledType? node = s.declaredTypeOfNode? node := by
  simp [settledType?, isInstantiating, hctx]

include hctx hplain

/-- A declaration without template parameters has no key. -/
theorem templateKey_of_plain : templateKey node env s = some ([], s) := by
  simp only [templateKey, get_bind, hctx, getTree_bind, hplain]
  rfl

/-- A model or an interface is constructed if it can be built once it is entered. -/
theorem construct_answered (hwf : env.tree.WellFormed) {parameters : List NodeId}
    {stub : Option TypeId → List TypeId → Option NodeId → TypeShape} {build : TypeId → CheckM Unit}
    {list : TypeId → NamespaceType → NamespaceType}
    (hlist : ∀ t n, (list t n).parentNamespace = n.parentNamespace)
    (h : s.declaredTypeOfNode? node = none → s.pending.find? (node, []) = none → ∀ stub,
      Answers env (s.opened node [] stub []) (build s.types.nextId)) :
    ∃ t s', construct node parameters stub build list env s = some (t, s') := by
  have hkey : templateKey node env s = some ([], s) := templateKey_of_plain hctx hplain
  cases hknown : s.settledType? node with
  | some t => exact ⟨t, s, by simp only [construct, get_bind, hknown]; rfl⟩
  | none =>
    simp only [construct, get_bind, hknown]
    rw [bind_of_run hkey]
    cases hpend : s.pending.find? (node, []) with
    | some t => exact ⟨t, s, by simp only [get_bind, hpend]; rfl⟩
    | none =>
      simp only [get_bind, hpend]
      rw [bind_of_run rfl, bind_of_run rfl]
      refine Ends.after (h (settledType?_of_context hctx ▸ hknown) hpend _).run fun _ => ?_
      split
      · exact .get_bind fun _ => .bind (fun _ => ⟨(), _, run_recordDeclared.mpr rfl⟩) fun _ =>
          .get_bind fun _ =>
            .bind (fun s => ((Answers.rules hwf s).addToNamespace _ (hlist _) : Answers env s _).run)
              fun _ => .bind (.modify _) fun _ => .pure _
      · exact .bind (.modify _) fun _ => .pure _

/-- A model is checked if what it needs is. -/
theorem checkModel_answered (hwf : env.tree.WellFormed) {parts : ModelNode}
    (hkind : env.tree.kind? node = some (.modelStatement parts))
    (h : s.settles env.tree node = false → ∀ stub c, env.tree.Needs node c →
      Answers env (s.opened node [] stub []) (check c)) :
    ∃ t s', checkModel check node parts env s = some (t, s') := by
  refine construct_answered hctx hplain hwf (fun _ _ => rfl) fun hknown hpend stub => ?_
  have hfree : s.settles env.tree node = false := by simp [settles, hkind, hknown, hpend]
  have hbuild : (Answers.rules hwf (s.opened node [] stub [])).Keeps
      (buildModel check node parts s.types.nextId) := Rules.buildModel _ report_answers
    (fun _ _ => Answers.modify (modifyTypes_retains _)) _ hkind (h hfree stub)
  exact (Answers.rules hwf _).whileBuilding _ hbuild

/-- An interface is checked if what it needs is. -/
theorem checkInterface_answered (hwf : env.tree.WellFormed) {parts : InterfaceNode}
    (hkind : env.tree.kind? node = some (.interfaceStatement parts))
    (h : s.settles env.tree node = false → ∀ stub c, env.tree.Needs node c →
      Answers env (s.opened node [] stub []) (check c)) :
    ∃ t s', checkInterface check node parts env s = some (t, s') := by
  refine construct_answered hctx hplain hwf (fun _ _ => rfl) fun hknown hpend stub => ?_
  have hfree : s.settles env.tree node = false := by simp [settles, hkind, hknown, hpend]
  have hserves : (Answers.rules hwf (s.opened node [] stub [])).Serves check check node :=
    h hfree stub
  exact (Answers.rules hwf _).buildInterface _ hkind hserves

/-- An alias is checked if its value is. -/
theorem checkAlias_answered {parts : AliasNode}
    (hkind : env.tree.kind? node = some (.aliasStatement parts))
    (h : s.settles env.tree node = false →
      Answers env (s.openAlias (node, [])) (check parts.value)) :
    ∃ t s', checkAlias check node parts env s = some (t, s') := by
  have hkey : templateKey node env s = some ([], s) := templateKey_of_plain hctx hplain
  cases hknown : s.settledType? node with
  | some t => exact ⟨t, s, by simp only [checkAlias, get_bind, hknown]; rfl⟩
  | none =>
    simp only [checkAlias, get_bind, hknown]
    rw [bind_of_run hkey, get_bind]
    by_cases hopen : (node, []) ∈ s.openAliases
    · rw [if_pos hopen]
      exact Ends.bind (report_ends _ _ _) (fun _ => .pure _) s
    · have hfree : s.settles env.tree node = false := by
        rw [settledType?_of_context hctx] at hknown
        simp [settles, hkind, hknown, hopen]
      obtain ⟨t, s₁, hrun, -⟩ := h hfree _ (.refl _)
      rw [openAlias] at hrun
      rw [if_neg hopen, modify_bind, bind_of_run hrun, modify_bind]
      split
      · refine Ends.get_bind (fun _ => .get_bind fun _ => .bind ?_ fun _ => .pure _) _
        rw [checkAlias.recordAlias.eq_def]
        split
        · exact .pure _
        · exact .modify _
      · exact Ends.pure t _

end

/-- A namespace is checked if its contents are. -/
theorem checkNamespace_answered (hwf : env.tree.WellFormed) {parts : NamespaceNode}
    (hkind : env.tree.kind? node = some (.namespaceStatement parts))
    (h : s.settles env.tree node = false → ∀ c, env.tree.Needs node c ∨ c ∈ parts.statements →
      Answers env (s.visiting node) (check c)) :
    ∃ t s', checkNamespace check node parts env s = some (t, s') := by
  cases htype : (s.bindings.symbolOf? node).bind s.namespaceTypeOf? with
  | none =>
    simp only [checkNamespace, get_bind, htype]
    exact ⟨_, _, run_internalError.mpr ⟨rfl, rfl⟩⟩
  | some type =>
    simp only [checkNamespace, get_bind, htype]
    by_cases hchk : node ∈ s.checkedNamespaces
    · exact ⟨type, s, by rw [if_pos hchk]; rfl⟩
    · rw [if_neg hchk]
      have hfree : s.settles env.tree node = false := by simp [settles, hkind, hchk]
      let r := Answers.rules hwf (s.visiting node)
      have hserves : r.Serves check check node := fun c hc => h hfree c (.inl hc)
      have hvisits : r.holds (parts.statements.forM fun statement => discard <| check statement)
          (parts.statements.forM fun statement => discard <| check statement) :=
        r.forM fun c hc => r.discard (h hfree c (.inr hc))
      have hbody : Answers env (s.visiting node) (do
          let decorators ← checkDecorators check node
          modify fun s => s.modifyTypes fun types => types.modifyNamespace type fun contents =>
            { contents with decorators := contents.decorators ++ decorators }
          runDecorators type decorators
          parts.statements.forM fun statement => discard <| check statement
          return type) :=
        .bind (r.checkDecorators hserves.decorators) fun _ =>
          .bind (.modify (modifyTypes_retains _)) fun _ => .bind (r.runDecorators _ _) fun _ =>
            .bind hvisits fun _ => .pure _
      exact hbody.run

/-- An enum is checked if its decorators and members are. -/
theorem checkEnum_answered (hwf : env.tree.WellFormed) {parts : EnumNode}
    (hkind : env.tree.kind? node = some (.enumStatement parts))
    (hdecs : s.settles env.tree node = false → ∀ d ∈ env.tree.decorators node,
      ∀ c, env.tree.Needs d c → Answers env s (check c))
    (hmems : s.settles env.tree node = false → ∀ s₁, Retains s s₁ →
      (s.bindings.symbolOf? node = none ∨ s₁.settles env.tree node = true) →
      ∀ c, env.tree.Needs node c → Answers env s₁ (check c)) :
    ∃ t s', checkEnum check node parts env s = some (t, s') := by
  cases hknown : s.declaredTypeOfNode? node with
  | some t => exact ⟨t, s, by simp only [checkEnum, get_bind, hknown]; rfl⟩
  | none =>
    have hfree : s.settles env.tree node = false := by simp [settles, hkind, hknown]
    simp only [checkEnum, get_bind, hknown, buildEnum]
    have hserves : ∀ d ∈ env.tree.decorators node, (Answers.rules hwf s).Serves check check d :=
      hdecs hfree
    obtain ⟨decorators, s₁, hrun, h₁⟩ := (Answers.rules hwf s).checkDecorators hserves s (.refl s)
    let row : TypeRecord := ⟨some node, .enumType
      ⟨parts.name, s.parentNamespaceType? node, [], decorators⟩⟩
    let symbol := (s₁.addRow row).bindings.symbolOf? node
    let declared := (s₁.addRow row).declare symbol s₁.types.nextId s₁.types.nextId false []
    have hdeclare : Frame none (s₁.addRow row) declared := declare_frame _ _ _ _ _
    have hretains : Retains s declared :=
      h₁.trans ((modifyTypes_retains _ s₁).trans hdeclare.toRetains)
    have hset : s.bindings.symbolOf? node = none ∨ declared.settles env.tree node = true := by
      cases hsym : s.bindings.symbolOf? node with
      | none => exact .inl rfl
      | some id =>
        have hbound : symbol = some id := by
          rw [← hsym, ← h₁.bindings]
          rfl
        refine .inr ?_
        simp only [settles, hkind, declaredTypeOfNode?, hretains.bindings, hsym,
          bind_some]
        simp only [declared, hbound, declaredType?_declare, isSome_some]
    have hinside : ∀ m ∈ parts.members, (Answers.rules hwf declared).Serves check check m := by
      refine fun m hm c hc => hmems hfree declared hretains hset c (.child hkind ?_ hc)
      simp [hm]
    obtain ⟨t, s', hfinish, -⟩ := (Answers.rules hwf declared).fillEnum s₁.types.nextId
      (s.parentNamespaceType? node) hinside declared (.refl _)
    refine ⟨t, s', run_bind.mpr ⟨decorators, s₁, hrun, ?_⟩⟩
    simp only [addType_bind, get_bind]
    exact run_bind.mpr ⟨(), declared, run_recordDeclared.mpr rfl, hfinish⟩

/-- An operation is checked if what it needs is. -/
theorem checkOperationNode_answered (hwf : env.tree.WellFormed) {parts : OperationNode}
    (hkind : env.tree.kind? node = some (.operationStatement parts))
    (halone : env.tree.isMember node = false)
    (h : ∀ c, env.tree.Needs node c → Answers env s (check c)) :
    ∃ t s', checkOperationNode check node parts env s = some (t, s') := by
  have hbuild : Answers env s (checkOperation check node parts none) := by
    refine .get_bind fun s₁ _ => ?_
    split
    · exact .pure _
    · have hserves : (Answers.rules hwf s).Serves check check node := h
      exact (Answers.rules hwf s).buildOperation none hkind hserves
  have hcheck : Answers env s (checkOperationNode check node parts) := by
    refine .getTree_bind ?_
    split
    next parent _ hpar houter =>
      rw [isMember, houter] at halone
      simp at halone
    · exact hbuild
  exact hcheck.run

/-! ### How far declarations lead that are not marked -/

/-- An operation or enum that is not marked refers to another one before its own type is known. -/
def State.LeansOn (s : State) (tree : Tree) (d d' : NodeId) : Prop :=
  tree.isUnmarked d = true ∧ tree.isUnmarked d' = true ∧ ∃ r target arguments,
    tree.kind? r = some (.typeReference target arguments) ∧ tree.exposes d r = true ∧
      s.declarationOf? tree r = some d'

open Classical in
/-- The number of declarations that one leads to through declarations that are not marked. -/
noncomputable def State.reach (s : State) (tree : Tree) (d : NodeId) : Nat :=
  ((range tree.size).filter fun i => TransGen (s.LeansOn tree) d ⟨i⟩).card

open Classical in
/-- What a declaration leans on does not lead as far as the declaration itself. -/
theorem State.LeansOn.reach_lt {d' : NodeId} (h : s.LeansOn tree d d')
    (hacyclic : ∀ n, ¬ TransGen (s.LeansOn tree) n n) :
    s.reach tree d' < s.reach tree d := by
  refine card_lt_card ⟨fun i hi => ?_, fun hsubset => hacyclic d' ?_⟩
  · rw [mem_filter] at hi ⊢
    exact ⟨hi.1, .head h hi.2⟩
  · have hnode := mem_range.mpr (index_lt_of_isUnmarked h.2.1)
    exact (mem_filter.mp (hsubset (mem_filter.mpr ⟨hnode, .single h⟩))).2

/-- A weight that a node can be given: none for declarations that are marked, and for what is
exposed by a declaration that is not marked the number of those that it leads to. -/
inductive Weighs (s : State) (tree : Tree) (n : NodeId) : Nat → Prop
  | light {kind : NodeKind} : tree.kind? n = some kind → kind.isExpression = false →
    tree.isUnmarked n = false → Weighs s tree n 0
  | exposed {d : NodeId} : n = d ∨ tree.exposes d n = true → tree.isUnmarked d = true →
    s.bindings.symbolOf? d ≠ none → Weighs s tree n (s.reach tree d + 1)
  | any : Weighs s tree n (tree.size + 2)

namespace Weighs

variable {weight : Nat}

section

variable (hwf : tree.WellFormed) (hkind : tree.kind? n = some kind)
  (hheavy : kind.isExpression = true ∨ tree.isUnmarked n = true)

include hwf hkind hheavy

/-- Inside a node that is not light nothing is heavier, if what a declaration exposes it does. -/
theorem of_ancestor (hc : n ∈ tree.ancestors c)
    (hself : tree.isUnmarked n = true → s.bindings.symbolOf? n ≠ none → tree.exposes n c = true)
    (h : Weighs s tree n weight) : Weighs s tree c weight := by
  cases h with
  | light hother hexpr hmarked =>
    obtain rfl := mem_unique hkind hother
    simp [hexpr, hmarked] at hheavy
  | exposed hexposed hunmarked hbound =>
    refine .exposed (.inr ?_) hunmarked hbound
    rcases hexposed with rfl | hexposed
    · exact hself hunmarked hbound
    · exact hwf.exposes_inside hexposed hc
  | any => exact .any

/-- Inside an expression, or an operation, nothing is heavier. -/
theorem inside (henum : ∀ parts, kind ≠ .enumStatement parts) (hc : n ∈ tree.ancestors c)
    (h : Weighs s tree n weight) : Weighs s tree c weight := by
  refine h.of_ancestor hwf hkind hheavy hc fun hunmarked _ => ?_
  have hself : n ∈ tree.selfAndAncestors c := List.mem_cons_of_mem _ hc
  rw [isUnmarked, hkind] at hunmarked
  rw [exposes, hkind]
  cases kind <;> simp_all

end

/-- Inside the decorators of an enum nothing is heavier. -/
theorem decorator (hwf : tree.WellFormed) (hkind : tree.kind? n = some (.enumStatement parts))
    (hd : d ∈ tree.decorators n) (hn : n ∈ tree.ancestors c) (hc : d ∈ tree.ancestors c)
    (h : Weighs s tree n weight) : Weighs s tree c weight := by
  refine h.of_ancestor hwf hkind (.inr (by simp [isUnmarked, hkind])) hn fun _ _ => ?_
  rw [exposes, hkind]
  exact List.any_eq_true.mpr ⟨d, hd, decide_eq_true (.tail _ hc)⟩

/-- The declaration that a reference leads to is lighter than the reference. -/
theorem declaration (hcons : Bindings.Consistent tree s.bindings)
    (hacyclic : ∀ n, ¬ TransGen (s.LeansOn tree) n n) {r target : NodeId}
    {arguments : List NodeId} (hkind : tree.kind? r = some (.typeReference target arguments))
    (hd : s.declarationOf? tree r = some d) (h : Weighs s tree r weight) :
    tree.IsDirect d ∧ ∃ lighter < weight, Weighs s tree d lighter := by
  obtain ⟨id, symbol, hrefnt, hsym, hnode⟩ := declarationOf?_eq_some_iff.mp hd
  have hprof := profile?_eq_some_iff.mpr ⟨symbol, hsym, rfl, rfl⟩
  have hmem := Symbol.mem_declarations hnode
  obtain ⟨kind, hdecl, hsymKind⟩ := hcons.kind hprof hmem
  have hexpr : kind.isExpression = false := by
    cases kind <;> simp_all [isExpression]
  -- An operation that has a symbol stands in no interface.
  have halone : ∀ parts, kind = .operationStatement parts → tree.isMember d = false := by
    rintro parts rfl
    rw [isMember]
    split
    next hiface =>
      obtain ⟨m, hpar, houter⟩ := bind_eq_some_iff.mp hiface
      have hscope := hcons.placed hprof hmem
        (by rw [← Option.some.inj hsymKind]; simp) hpar houter
      simp at hscope
    · rfl
  have hdirect : tree.IsDirect d := by
    rw [IsDirect, hdecl]
    cases kind <;> simp_all
  have hpos : 0 < weight := by
    cases h with
    | light hother hnot =>
      obtain rfl := mem_unique hkind hother
      simp [isExpression] at hnot
    | exposed | any => omega
  refine ⟨hdirect, ?_⟩
  cases hunmarked : tree.isUnmarked d with
  | false => exact ⟨0, hpos, .light hdecl hexpr hunmarked⟩
  | true =>
    have hns : symbol.kind ≠ .namespaceKind := by
      rw [isUnmarked, hdecl] at hunmarked
      cases kind <;> simp_all <;> simp [← hsymKind]
    have hbound := symbolOf_of_node hcons hsym hnode hns
    refine ⟨s.reach tree d + 1, ?_, .exposed (.inl rfl) hunmarked (by simp [hbound])⟩
    cases h with
    | light => exact absurd hpos (Nat.lt_irrefl 0)
    | @exposed other hexposed hother =>
      have hexposes : tree.exposes other r = true := by
        refine hexposed.resolve_left ?_
        rintro rfl
        simp [isUnmarked, hkind] at hother
      have hlt := LeansOn.reach_lt
        ⟨hother, hunmarked, r, target, arguments, hkind, hexposes, hd⟩ hacyclic
      omega
    | any =>
      have hle : s.reach tree d ≤ tree.size := by
        classical exact (card_filter_le _ _).trans (card_range _).le
      omega

end Weighs

/-! ### Every check has an answer -/

/-- Names mean the same in both states, and no template is being instantiated in the second one. -/
structure Succeeds (p s : State) : Prop where
  bindings : s.bindings = p.bindings
  mergedSymbols : s.mergedSymbols = p.mergedSymbols
  context : s.context = none

/-- Later states succeed too. -/
theorem Succeeds.retains (h : Succeeds p s) (hretains : Retains s s') : Succeeds p s' where
  bindings := hretains.bindings.trans h.bindings
  mergedSymbols := hretains.mergedSymbols.trans h.mergedSymbols
  context := hretains.context.trans h.context

/-- The check has an answer for every node whose effort is less than the depth. -/
def Serves (env : Environment) (p : State) (depth : Nat) (check : Check) : Prop :=
  ∀ {n : NodeId} {s : State} {weight : Nat}, Succeeds p s → env.tree.IsDirect n →
    Weighs p env.tree n weight →
    effort env.tree.size (s.unsettled env.tree) weight n.index < depth →
    ∃ t s', check n env s = some (t, s')

section

variable {depth weight : Nat} {kind : NodeKind}

/-- Effort is not more in states that retain what is known. -/
theorem Serves.answers (h : Serves env p depth check) (hcheck : Framed env check)
    (hs : Succeeds p s) (hdirect : env.tree.IsDirect n) (hweighs : Weighs p env.tree n weight)
    (heffort : effort env.tree.size (s.unsettled env.tree) weight n.index < depth) :
    Answers env s (check n) := by
  intro s₁ h₁
  have hle : effort env.tree.size (s₁.unsettled env.tree) weight n.index ≤
      effort env.tree.size (s.unsettled env.tree) weight n.index :=
    effort_mono h₁.settlesMore.unsettled_le (Nat.le_refl _) (Nat.le_refl _)
  obtain ⟨t, s', hrun⟩ := h (hs.retains h₁) hdirect hweighs (by omega)
  exact ⟨t, s', hrun, h₁.trans (hcheck.frame hrun).toRetains⟩

variable (h : Serves env p depth check) (hcheck : Framed env check)
  (heffort : effort env.tree.size (s.unsettled env.tree) weight n.index < depth + 1)

include h hcheck heffort

/-- What is not heavier than the node around it is answered. -/
theorem Serves.inside (hwf : env.tree.WellFormed) (hs : Succeeds p s) (hdirect : env.tree.IsDirect c)
    (hc : n ∈ env.tree.ancestors c) (hweighs : Weighs p env.tree c weight) :
    Answers env s (check c) := by
  have hlt := hwf.lt_of_mem_ancestors hc
  refine h.answers hcheck hs hdirect hweighs ?_
  unfold effort at heffort ⊢
  omega

/-- Whatever is called for is answered when one more declaration is settled. -/
theorem Serves.settled (hs : Succeeds p s₁) (hmore : s.SettlesMore s₁ env.tree)
    (hbefore : s.settles env.tree n = false) (hafter : s₁.settles env.tree n = true)
    (hn : n.index < env.tree.size) (hdirect : env.tree.IsDirect c) : Answers env s₁ (check c) := by
  obtain ⟨inner, hinner⟩ := hdirect.exists_kind
  have hlt := hmore.unsettled_lt hbefore hafter hn
  have hless : effort env.tree.size (s₁.unsettled env.tree) (env.tree.size + 2) c.index <
      effort env.tree.size (s.unsettled env.tree) weight n.index :=
    effort_lt_of_unsettled hlt (Nat.le_refl _) (Nat.le_of_lt (index_lt_size_of_kind hinner))
  exact h.answers hcheck hs hdirect .any (by omega)

end

section

variable {depth : Nat} (hwf : env.tree.WellFormed) (hgram : env.tree.Grammatical)
  (hplain : ∀ n, env.tree.templateParameters n = [])
  (hcons : Bindings.Consistent env.tree p.bindings)
  (hacyclic : ∀ n, ¬ TransGen (p.LeansOn env.tree) n n)

/-- A model or an interface that is entered is settled. -/
theorem settlesMore_opened (key : List TypeId) (stub : TypeShape) :
    s.SettlesMore (s.opened node key stub []) tree := by
  refine .of_marks (fun _ => id) (fun n hfound => ?_) (List.Subset.refl _) (List.Subset.refl _)
  rw [opened, OrderedMap.find?_insert]
  split
  · rfl
  · exact hfound

/-- An alias that is being resolved is settled. -/
theorem settlesMore_openAlias (entry : NodeId × List TypeId) :
    s.SettlesMore (s.openAlias entry) tree :=
  .of_marks (fun _ => id) (fun _ => id) (List.subset_cons_self _ _) (List.Subset.refl _)

/-- A namespace that is visited is settled. -/
theorem settlesMore_visit :
    s.SettlesMore (s.visiting node) tree :=
  .of_marks (fun _ => id) (fun _ => id) (List.Subset.refl _) (List.subset_append_left _ _)

include hwf hgram hplain hcons hacyclic

/-- If the checks that a check calls for are answered, then so is the check. -/
theorem checkStep_serves (h : Serves env p depth check) (hcheck : Framed env check) :
    Serves env p (depth + 1) (checkStep check) := by
  intro n s weight hs hdirect hweighs heffort
  obtain ⟨kind, hkind⟩ := hdirect.exists_kind
  have hn := index_lt_size_of_kind hkind
  have hneeds : ∀ {c}, env.tree.Needs n c → n ∈ env.tree.ancestors c := hwf.mem_ancestors_of_needs
  have hdirects : ∀ {c}, env.tree.Needs n c → env.tree.IsDirect c := fun hc =>
    hc.isDirect hgram
  -- The operands of an expression, and the parts of an operation.
  have hparts : kind.isExpression = true ∨ env.tree.isUnmarked n = true →
      (∀ parts, kind ≠ .enumStatement parts) → ∀ c, env.tree.Needs n c → Answers env s (check c) :=
    fun hheavy henum c hc => h.inside hcheck heffort hwf hs (hdirects hc) (hneeds hc)
      (hweighs.inside hwf hkind hheavy henum (hneeds hc))
  let r := Answers.rules hwf s
  have hserves : kind.isExpression = true → r.Serves check check n := fun hheavy =>
    hparts (.inl hheavy) (by rintro _ rfl; simp [isExpression] at hheavy)
  -- What is called for when the declaration has been marked.
  have hmarked : ∀ {s₁ : State}, Succeeds p s₁ → s.SettlesMore s₁ env.tree →
      s.settles env.tree n = false → s₁.settles env.tree n = true →
      ∀ {c}, env.tree.IsDirect c → Answers env s₁ (check c) :=
    fun hs₁ hmore hbefore hafter _ hc => h.settled hcheck heffort hs₁ hmore hbefore hafter hn hc
  have hopened : ∀ stub, s.settles env.tree n = false →
      (s.opened n [] stub []).settles env.tree n = true →
      ∀ c, env.tree.Needs n c → Answers env (s.opened n [] stub []) (check c) := by
    intro stub hbefore hafter c hc
    have hsucceeds : Succeeds p (s.opened n [] stub []) := { hs with }
    exact hmarked hsucceeds (settlesMore_opened _ _) hbefore hafter (hdirects hc)
  simp only [checkStep, getTree_bind, hkind]
  cases kind with
  | modelStatement parts =>
    exact checkModel_answered hs.context (hplain n) hwf hkind fun hfree stub => hopened stub hfree
      (by simp [settles, opened, hkind])
  | interfaceStatement parts =>
    exact checkInterface_answered hs.context (hplain n) hwf hkind fun hfree stub =>
      hopened stub hfree (by simp [settles, opened, hkind])
  | aliasStatement parts =>
    refine checkAlias_answered hs.context (hplain n) hkind fun hfree => ?_
    have hsucceeds : Succeeds p (s.openAlias (n, [])) := { hs with }
    exact hmarked hsucceeds (settlesMore_openAlias _) hfree
      (by simp [openAlias, settles, hkind]) (hdirects (.operand hkind (.head _)))
  | namespaceStatement parts =>
    refine checkNamespace_answered hwf hkind fun hfree c hc => ?_
    have hsucceeds : Succeeds p (s.visiting n) := { hs with }
    exact hmarked hsucceeds settlesMore_visit hfree (by simp [visiting, settles, hkind])
      (hc.elim (fun hc => hdirects hc) fun hc => hgram.isDirect hwf hkind hc)
  | enumStatement parts =>
    refine checkEnum_answered hwf hkind (fun hfree d hd c hc => ?_)
      fun hfree s₁ hretains hset c hc => ?_
    · have hinside := hneeds (.inside (mem_children_of_decorator hd) hc)
      exact h.inside hcheck heffort hwf hs (hc.isDirect hgram) hinside
        (hweighs.decorator hwf hkind hd hinside (hwf.mem_ancestors_of_needs hc))
    · rcases hset with hnone | hafter
      · have hless : effort env.tree.size (s₁.unsettled env.tree) weight n.index < depth + 1 :=
          (effort_mono hretains.settlesMore.unsettled_le (Nat.le_refl _) (Nat.le_refl _)).trans_lt
            heffort
        exact h.inside hcheck hless hwf (hs.retains hretains) (hdirects hc) (hneeds hc)
          (hweighs.of_ancestor hwf hkind (.inr (by simp [isUnmarked, hkind])) (hneeds hc)
            fun _ hbound => absurd (hs.bindings ▸ hnone) hbound)
      · exact hmarked (hs.retains hretains) hretains.settlesMore hfree hafter (hdirects hc)
  | operationStatement parts =>
    have halone : env.tree.isMember n = false := by simpa [IsDirect, hkind] using hdirect
    have hunmarked : env.tree.isUnmarked n = true := by simp [isUnmarked, hkind, halone]
    exact checkOperationNode_answered hwf hkind halone (hparts (.inr hunmarked) (by simp))
  | typeReference target arguments =>
    have hargs := fun c hc => hparts (.inl rfl) (by simp) c (.operand hkind hc)
    refine (checkTypeReference_answers hwf hs.context hplain hkind hargs
      fun id symbol d hrefnt hsym hnode => ?_).run
    have hd : p.declarationOf? env.tree n = some d := by
      rw [← declarationOf?_congr hs.bindings hs.mergedSymbols]
      exact declarationOf?_eq_some_iff.mpr ⟨id, symbol, hrefnt, hsym, hnode⟩
    obtain ⟨hdirect, lighter, hlt, hlighter⟩ := hweighs.declaration hcons hacyclic hkind hd
    obtain ⟨_, hdecl⟩ := hdirect.exists_kind
    have hless : effort env.tree.size (s.unsettled env.tree) lighter d.index <
        effort env.tree.size (s.unsettled env.tree) weight n.index :=
      effort_lt_of_weight hlt (Nat.le_of_lt (index_lt_size_of_kind hdecl))
    exact h.answers hcheck hs hdirect hlighter (by omega)
  | modelExpression members => exact Answers.run (r.checkModelExpression hkind (hserves rfl))
  | unionExpression options => exact Answers.run (r.checkUnion hkind (hserves rfl))
  | intersectionExpression operands => exact Answers.run (r.checkIntersection hkind (hserves rfl))
  | arrayExpression element => exact Answers.run (r.checkArray hkind (hserves rfl))
  | tupleExpression values => exact Answers.run (r.checkTuple hkind (hserves rfl))
  | stringLiteral _ => exact Answers.run (r.checkLiteral _ _)
  | numericLiteral _ => exact Answers.run (r.checkLiteral _ _)
  | booleanLiteral _ => exact Answers.run (r.checkLiteral _ _)
  | intrinsicStatement name => exact Answers.run (r.checkIntrinsic hkind)
  | templateParameterDeclaration name => exact checkTemplateParameter_ends s
  | enumMember parts => simp [IsDirect, hkind] at hdirect
  | modelProperty parts => simp [IsDirect, hkind] at hdirect
  | _ => exact ⟨_, s, rfl⟩

/-- Every check has an answer that is not too deep. -/
theorem checkNode_serves (depth : Nat) : Serves env p depth (checkNode depth) := by
  induction depth with
  | zero => exact fun _ _ _ heffort => absurd heffort (Nat.not_lt_zero _)
  | succ depth ih =>
    rw [checkNode]
    exact checkStep_serves hwf hgram hplain hcons hacyclic ih (checkNode_framed hwf depth)

end

/-! ### The check of a program -/

/-- How deeply checks can nest. -/
def depthBound (tree : Tree) : Nat := effort tree.size tree.size (tree.size + 2) tree.size + 1

section

variable (hc : env.tree.Complete) (hgram : env.tree.Grammatical)
  (hplain : ∀ n, env.tree.templateParameters n = []) (hblank : ∃ bound, Blank env bound true p)
  (hacyclic : ∀ n, ¬ TransGen (p.LeansOn env.tree) n n)

include hc hgram hplain hblank hacyclic

/-- Any statement of a file or a namespace can be checked at any time. -/
theorem checkStatement_answered (hframe : Frame none p s) (hdirect : env.tree.IsDirect node) :
    ∃ t s', checkNode (depthBound env.tree) node env s = some (t, s') ∧ Frame none p s' := by
  obtain ⟨bound, hblank⟩ := hblank
  obtain ⟨kind, hkind⟩ := hdirect.exists_kind
  have hsucceeds : Succeeds p s :=
    ⟨hframe.bindings, hframe.mergedSymbols, hframe.context.trans hblank.context⟩
  have heffort : effort env.tree.size (s.unsettled env.tree) (env.tree.size + 2) node.index <
      depthBound env.tree :=
    Nat.lt_succ_of_le (effort_mono ((card_filter_le _ _).trans (card_range _).le)
      (Nat.le_refl _) (Nat.le_of_lt (index_lt_size_of_kind hkind)))
  obtain ⟨t, s', hrun⟩ := checkNode_serves hc.toWellFormed hgram hplain hblank.consistent
    hacyclic (depthBound env.tree) hsucceeds hdirect .any heffort
  exact ⟨t, s', hrun, hframe.trans ((checkNode_framed hc.toWellFormed _).frame hrun)⟩

/-- Statements are checked in turn. -/
theorem checkStatements_answered {statements : List NodeId}
    (hdirect : ∀ n ∈ statements, env.tree.IsDirect n) (hframe : Frame none p s) :
    ∃ s', (statements.forM fun n =>
        discard <| checkNode (depthBound env.tree) n) env s = some ((), s') ∧
      Frame none p s' := by
  induction statements generalizing s with
  | nil => exact ⟨s, rfl, hframe⟩
  | cons n rest ih =>
    obtain ⟨t, s₁, hrun, h₁⟩ := checkStatement_answered hc hgram hplain hblank hacyclic hframe
      (hdirect n (.head _))
    obtain ⟨s', hrest, h'⟩ := ih (fun m hm => hdirect m (.tail _ hm)) h₁
    exact ⟨s', run_forM_cons.mpr ⟨s₁, run_discard.mpr ⟨t, hrun⟩, hrest⟩, h'⟩

/-- Files are checked in turn. -/
theorem checkFiles_answered {files : List NodeId} (hfiles : files ⊆ env.tree.files)
    (hframe : Frame none p s) :
    ∃ s', files.forM (checkFile (depthBound env.tree)) env s = some ((), s') ∧ Frame none p s' := by
  induction files generalizing s with
  | nil => exact ⟨s, rfl, hframe⟩
  | cons file rest ih =>
    rw [List.cons_subset] at hfiles
    obtain ⟨-, name, statements, hkind⟩ := hc.file_root hfiles.1
    obtain ⟨s₁, hrun, h₁⟩ := checkStatements_answered hc hgram hplain hblank hacyclic
      (fun n hn => hgram.isDirect hc.toWellFormed hkind hn) hframe
    obtain ⟨s', hrest, h'⟩ := ih hfiles.2 h₁
    have hprepd : prepare env s = some ((), s) :=
      prepare_eq_self (hframe.initialized.trans hblank.choose_spec.initialized)
    have hfile : checkFile (depthBound env.tree) file env s = some ((), s₁) := by
      rw [checkFile, bind_of_run hprepd]
      simp only [getTree_bind, hkind]
      exact hrun
    exact ⟨s', run_forM_cons.mpr ⟨s₁, hfile, hrest⟩, h'⟩

end

section

variable {files : List SourceFile} {paths : List String} {registry : Registry} {designTime : Bool}
  {requests : List Request} {answers : List (Option TypeId)}

/-- If no declaration has template parameters, and no operation that stands on its own and no enum
leads back to itself through such operations and enums alone, then the program is checked to the
end, whatever else leads back to itself and whatever was asked before. -/
theorem plain_programs_terminate
    (hplain : ∀ n, (Tree.ofFiles files).templateParameters n = [])
    (hprepare : prepare ⟨.ofFiles files, registry, designTime⟩
      (.initial (.declaring (.ofFiles files) paths)) = some ((), p))
    (hacyclic : ∀ n, ¬ TransGen (p.LeansOn (.ofFiles files)) n n)
    (hperforms : Performs ⟨.ofFiles files, registry, designTime⟩ requests
      (.initial (.declaring (.ofFiles files) paths)) answers s) :
    ∃ depth failure s',
      checkProgram depth ⟨.ofFiles files, registry, designTime⟩ s = some (failure, s') := by
  have hc := Tree.ofFiles_complete files
  have hinitial := hperforms.reached.blank paths
  have hblank : Blank ⟨.ofFiles files, registry, designTime⟩ _ true p :=
    hinitial.prepare hc.toWellFormed hprepare
  -- Whether or not the files have been merged before, preparing leads to a state after `p`.
  obtain ⟨s₁, hprepared, hframe⟩ : ∃ s₁, prepare ⟨.ofFiles files, registry, designTime⟩ s =
      some ((), s₁) ∧ Frame none p s₁ := by
    rcases prepares_of_calls hc.toWellFormed hinitial (Performs.calls hperforms) with
      rfl | ⟨s₁, hfirst, hchecked⟩
    · exact ⟨p, hprepare, .refl _ _⟩
    · obtain rfl := (Prod.mk.inj (mem_unique hprepare hfirst)).2
      have hframe : Frame none p s := hchecked.frame hc.toWellFormed
      exact ⟨s, prepare_eq_self (hframe.initialized.trans hblank.initialized), hframe⟩
  obtain ⟨s', hrun, -⟩ := checkFiles_answered hc (Tree.ofFiles_grammatical files) hplain ⟨_, hblank⟩
    hacyclic (List.Subset.refl _) hframe
  refine ⟨depthBound (.ofFiles files), s'.failure, s', ?_⟩
  rw [checkProgram, bind_of_run hprepared, getTree_bind, bind_of_run hrun]
  rfl

end

/-- References that only lead to earlier declarations do not lead back. -/
theorem acyclic_of_backward
    (h : ∀ i < tree.size, ∀ d' ∈ p.declarationOf? tree ⟨i⟩, tree.isUnmarked d' = true →
      ∀ j < tree.size, tree.exposes ⟨j⟩ ⟨i⟩ = true → d'.index < j) (n : NodeId) :
    ¬ TransGen (p.LeansOn tree) n n := by
  have hstep : ∀ {d d'}, p.LeansOn tree d d' → d'.index < d.index := by
    rintro d d' ⟨hd, hd', r, target, arguments, hkind, hexposes, hleads⟩
    exact h r.index (index_lt_size_of_kind hkind) d' hleads hd' d.index
      (index_lt_of_isUnmarked hd) hexposes
  have hmany : ∀ {d d'}, TransGen (p.LeansOn tree) d d' → d'.index < d.index := by
    intro d d' hleads
    induction hleads with
    | single hlast => exact hstep hlast
    | tail _ hlast ih => exact (hstep hlast).trans ih
  exact fun hcycle => Nat.lt_irrefl _ (hmany hcycle)

/-- Preparing can be evaluated. -/
theorem exists_prepare {P : State → Prop} [DecidablePred P]
    (h : (prepare env s).any (fun outcome => P outcome.2) = true) :
    ∃ p, prepare env s = some ((), p) ∧ P p := by
  obtain ⟨outcome, hrun, hP⟩ := (any_eq_true _ _).mp h
  exact ⟨outcome.2, hrun, of_decide_eq_true hP⟩

/-- A dock is a ferry and a ferry a dock. The sizes are documented by docks, which have sizes, and
the crew mixes in itself. -/
def ferries : List SourceFile :=
  [⟨"ferries", [
    .enumDecl "Size" [⟨"small", none, [.mk "doc" [.reference "Size" []]]⟩]
      [.mk "doc" [.reference "Dock" []]],
    .modelDecl "Dock" [] (some (.reference "Ferry" [])) none [.required "size" "Size"] [],
    .modelDecl "Ferry" [] (some (.reference "Dock" [])) none [.spread (.reference "Dock" [])] [],
    .aliasDecl "Fleet" [] (.array (.reference "Fleet" [])),
    .operationDecl ⟨"land", [], .reference "Crew" [], []⟩,
    .interfaceDecl "Crew" [] [.reference "Crew" []] [⟨"sail", [], .reference "land" [], []⟩] []]⟩]

/-- The ferries are checked to the end. -/
theorem plain_programs_terminate_ferries : ∃ depth failure s,
    checkProgram depth ⟨.ofFiles ferries, .empty, false⟩
      (.initial (.declaring (.ofFiles ferries) ["doc"])) = some (failure, s) := by
  have hplain : ∀ n, (Tree.ofFiles ferries).templateParameters n = [] := by
    intro n
    have hall : ∀ row ∈ (Tree.ofFiles ferries).nodes.toList, row.2.kind.templateParameters = [] := by
      decide +kernel
    cases hnode : (Tree.ofFiles ferries).node? n with
    | none => simp [Tree.templateParameters, Tree.kind?, hnode]
    | some row =>
      simpa [Tree.templateParameters, Tree.kind?, hnode] using
        hall (n, row) (Table.mem_toList.mpr hnode)
  obtain ⟨p, hrun, hbackward⟩ := @exists_prepare ⟨.ofFiles ferries, .empty, false⟩
    (.initial (.declaring (.ofFiles ferries) ["doc"]))
    (fun p => ∀ i < (Tree.ofFiles ferries).size, ∀ d' ∈ p.declarationOf? (.ofFiles ferries) ⟨i⟩,
      (Tree.ofFiles ferries).isUnmarked d' = true → ∀ j < (Tree.ofFiles ferries).size,
        (Tree.ofFiles ferries).exposes ⟨j⟩ ⟨i⟩ = true → d'.index < j) _ (by decide +kernel)
  have hnone : Performs ⟨.ofFiles ferries, .empty, false⟩ []
      (.initial (.declaring (.ofFiles ferries) ["doc"])) [] _ := ⟨0, rfl⟩
  exact plain_programs_terminate hplain hrun (acyclic_of_backward hbackward) hnone

end Checking

end ApiSchema
