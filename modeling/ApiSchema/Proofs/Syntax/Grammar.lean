import ApiSchema.Proofs.Syntax.Adding

/-!
# What the nodes of files are made of

Wherever the type of a part of a node is asked for, the part is an expression, and files and
namespaces hold statements. This is kept whenever a description is added, since a node is added
after its parts. What can be said of the nodes that stand for a description is said of every later
tree; the rules for `Lowers` carry it from the parts of a description to the whole.
-/

namespace ApiSchema

namespace NodeKind

/-- Whether the node is a type expression or a literal. -/
def isExpression : NodeKind → Bool
  | typeReference .. | modelExpression .. | unionExpression .. | intersectionExpression ..
  | arrayExpression .. | tupleExpression .. | stringLiteral .. | numericLiteral ..
  | booleanLiteral .. => true
  | _ => false

/-- Whether the node stands in a file or in a namespace. -/
def isTopLevel : NodeKind → Bool
  | intrinsicStatement .. => true
  | kind => kind.isStatement

/-- The children of the node whose types it asks for. -/
def operands : NodeKind → List NodeId
  | modelStatement parts => parts.base.toList ++ parts.copied.toList
  | modelProperty parts => parts.value :: parts.defaultValue.toList
  | modelSpreadProperty target => [target]
  | operationStatement parts => [parts.parameters, parts.returns]
  | interfaceStatement parts => parts.mixins
  | enumMember parts => parts.value.toList
  | aliasStatement parts => [parts.value]
  | typeReference _ arguments => arguments
  | unionExpression options => options
  | intersectionExpression operands => operands
  | arrayExpression element => [element]
  | tupleExpression values => values
  | decoratorExpression _ arguments => arguments
  | _ => []

/-- The statements that a file or a namespace holds. -/
def statements : NodeKind → List NodeId
  | sourceFile _ statements => statements
  | namespaceStatement parts => parts.statements
  | _ => []

theorem operands_subset (kind : NodeKind) : kind.operands ⊆ kind.children := by
  intro c hc
  cases kind <;> simp_all [operands, children]
  all_goals grind

theorem statements_subset (kind : NodeKind) : kind.statements ⊆ kind.children := by
  cases kind <;> simp [statements, children]

end NodeKind

namespace Tree

variable {tree tree' later : Tree} {fits : NodeKind → Bool} {kind : NodeKind} {α β : Type}

/-- There is a node of a kind that fits. -/
def Stands (tree : Tree) (fits : NodeKind → Bool) (n : NodeId) : Prop :=
  ∃ kind, tree.kind? n = some kind ∧ fits kind = true

/-- The operands of all nodes are expressions, and their statements are statements. -/
structure Grammatical (tree : Tree) : Prop where
  operand {n c : NodeId} {kind : NodeKind} : tree.kind? n = some kind → c ∈ kind.operands →
    tree.Stands NodeKind.isExpression c
  statement {n c : NodeId} {kind : NodeKind} : tree.kind? n = some kind → c ∈ kind.statements →
    tree.Stands NodeKind.isTopLevel c

/-- What a node of a kind asks to be expressions and statements are such. -/
structure Sound (tree : Tree) (kind : NodeKind) : Prop where
  operand : ∀ c ∈ kind.operands, tree.Stands NodeKind.isExpression c
  statement : ∀ c ∈ kind.statements, tree.Stands NodeKind.isTopLevel c

/-- The second tree has all nodes of the first one. -/
structure Keeps (tree later : Tree) : Prop where
  size_le : tree.size ≤ later.size
  kept {n : NodeId} {kind : NodeKind} : tree.kind? n = some kind → later.kind? n = some kind

theorem Keeps.refl (tree : Tree) : tree.Keeps tree := ⟨Nat.le_refl _, id⟩

theorem Keeps.trans (h : tree.Keeps tree') (h' : tree'.Keeps later) : tree.Keeps later :=
  ⟨Nat.le_trans h.size_le h'.size_le, h'.kept ∘ h.kept⟩

theorem Keeps.addNode (tree : Tree) (start : Nat) (kind : NodeKind) :
    tree.Keeps (Tree.addNode start kind tree).2 := by
  refine ⟨by rw [size_addNode]; omega, fun {n inner} hn => ?_⟩
  rw [kind?_addNode, if_neg (Nat.ne_of_lt (index_lt_size_of_kind hn)), hn]

/-- A node whose parts are what they should be. -/
theorem Grammatical.addNode (h : tree.Grammatical) (start : Nat)
    (hsound : (Tree.addNode start kind tree).2.Sound kind) :
    (Tree.addNode start kind tree).2.Grammatical := by
  have hkeeps := Keeps.addNode tree start kind
  refine ⟨fun {n c outer} houter hc => ?_, fun {n c outer} houter hc => ?_⟩
  · rw [kind?_addNode] at houter
    split at houter
    · exact hsound.operand c (Option.some.inj houter ▸ hc)
    · exact (h.operand houter hc).imp fun _ => .imp_left hkeeps.kept
  · rw [kind?_addNode] at houter
    split at houter
    · exact hsound.statement c (Option.some.inj houter ▸ hc)
    · exact (h.statement houter hc).imp fun _ => .imp_left hkeeps.kept

/-! ### What descriptions add -/

/-- The computation only adds to the tree and keeps it grammatical, and from then on something can
be said of its result. What is said concerns searches that go at least as deep as there are
nodes. -/
structure Extends (tree : Tree) (m : StateM Tree α) (result : α → Tree → Nat → Prop) : Prop where
  keeps : tree.Keeps (m tree).2
  grammatical : tree.Grammatical → (m tree).2.Grammatical
  result {later : Tree} {depth : Nat} : (m tree).2.Keeps later → (m tree).2.size ≤ depth →
    result (m tree).1 later depth

/-- The computation goes on with additions to `start`, of which it takes over the roots `before`, if
enough is known of the nodes before it. -/
def Lowers (start : Tree) (known : Tree → Nat → Prop) (before : List (NodeId × NodeRole))
    (m : StateM Tree α) (after : α → List (NodeId × NodeRole) → Prop)
    (result : α → Tree → Nat → Prop) : Prop :=
  ∀ tree : Tree, Adds start tree before →
    (∀ later depth, tree.Keeps later → tree.size ≤ depth → known later depth) →
    (∃ roots, after (m tree).1 roots ∧ Adds start (m tree).2 roots) ∧ tree.Extends m result

/-- The computation adds nodes with the given roots, wherever it runs. -/
def Describes (roots : α → List (NodeId × NodeRole)) (m : StateM Tree α)
    (result : α → Tree → Nat → Prop) : Prop :=
  ∀ (start : Tree) (known : Tree → Nat → Prop) (before : List (NodeId × NodeRole)),
    Lowers start known before m (fun a after => after = before ++ roots a) result

/-- The computation adds a tree of nodes that is read as a value. -/
abbrev Reads (role : NodeRole) (m : StateM Tree NodeId) (read : Tree → Nat → NodeId → Option β)
    (value : β) : Prop :=
  Describes (fun n => rootsAt role [n]) m fun n later depth => read later depth n = some value

/-- The computation adds trees of nodes that are read as values. -/
abbrev ReadsAll (role : NodeRole) (m : StateM Tree (List NodeId))
    (read : Tree → Nat → NodeId → Option β) (values : List β) : Prop :=
  Describes (rootsAt role) m fun ids later depth => ids.mapM (read later depth) = some values

section

variable {start : Tree} {known : Tree → Nat → Prop} {before : List (NodeId × NodeRole)}
  {m : StateM Tree α} {after : α → List (NodeId × NodeRole) → Prop}
  {result : α → Tree → Nat → Prop} {roots : α → List (NodeId × NodeRole)} {role : NodeRole}

namespace Lowers

theorem pure {a : α} (hafter : after a before)
    (h : ∀ later depth, known later depth → result a later depth) :
    Lowers start known before (Pure.pure a) after result :=
  fun tree hadds hknown => ⟨⟨before, hafter, hadds⟩, .refl tree, id, fun hkeeps hdepth =>
    h _ _ (hknown _ _ hkeeps hdepth)⟩

theorem mono {result' : α → Tree → Nat → Prop} (h : Lowers start known before m after result)
    (himp : ∀ {a later depth}, result a later depth → result' a later depth) :
    Lowers start known before m after result' := by
  intro tree hadds hknown
  obtain ⟨hroots, hext⟩ := h tree hadds hknown
  exact ⟨hroots, hext.keeps, hext.grammatical, fun hlater hdepth =>
    himp (hext.result hlater hdepth)⟩

theorem bind {f : α → StateM Tree β} {after' : β → List (NodeId × NodeRole) → Prop}
    {result' : β → Tree → Nat → Prop} (hm : Lowers start known before m after result)
    (hf : ∀ a roots, after a roots → Lowers start
      (fun later depth => known later depth ∧ result a later depth) roots (f a) after' result') :
    Lowers start known before (m >>= f) after' result' := by
  intro tree hadds hknown
  obtain ⟨⟨roots, hafter, hadds₁⟩, hfirst⟩ := hm tree hadds hknown
  obtain ⟨hadds₂, hrest⟩ := hf (m tree).1 roots hafter (m tree).2 hadds₁
    fun later depth hlater hdepth => ⟨hknown later depth (hfirst.keeps.trans hlater)
      (Nat.le_trans hfirst.keeps.size_le hdepth), hfirst.result hlater hdepth⟩
  exact ⟨hadds₂, hfirst.keeps.trans hrest.keeps, hrest.grammatical ∘ hfirst.grammatical, hrest.result⟩

/-- Roots are added to those before. -/
theorem part {f : α → StateM Tree β} {after' : β → List (NodeId × NodeRole) → Prop}
    {result' : β → Tree → Nat → Prop} (hm : Describes roots m result)
    (hf : ∀ a, Lowers start (fun later depth => known later depth ∧ result a later depth)
      (before ++ roots a) (f a) after' result') :
    Lowers start known before (m >>= f) after' result' :=
  (hm start known before).bind fun a _ heq => heq ▸ hf a

/-- What is known of the parts of a node holds one step below it. -/
theorem node {after : NodeId → List (NodeId × NodeRole) → Prop} {result : NodeId → Tree → Nat → Prop}
    (hafter : ∀ n, after n (rootsAt kind.role [n]))
    (hadd : ∀ tree depth, known tree depth → Adds start tree before →
      Adds start (addNode start.size kind tree).2
        (rootsAt kind.role [(addNode start.size kind tree).1]))
    (h : ∀ n later depth, known later depth → later.kind? n = some kind →
      later.Sound kind ∧ result n later (depth + 1)) :
    Lowers start known before (addNode start.size kind) after result := by
  intro tree hadds hknown
  have hkeeps := Keeps.addNode tree start.size kind
  have hnew : (addNode start.size kind tree).2.kind? (addNode start.size kind tree).1 = some kind :=
    (kind?_addNode _ _ _).trans (if_pos rfl)
  have hnow := hknown tree tree.size (.refl tree) (Nat.le_refl _)
  refine ⟨⟨_, hafter _, hadd tree tree.size hnow hadds⟩, hkeeps,
    fun hgram => hgram.addNode start.size
      (h _ _ tree.size (hknown _ _ hkeeps (Nat.le_refl _)) hnew).1,
    fun {later depth} hlater hdepth => ?_⟩
  rw [size_addNode] at hdepth
  obtain ⟨depth, rfl⟩ : ∃ d, depth = d + 1 := ⟨depth - 1, by omega⟩
  exact (h _ later depth (hknown later depth (hkeeps.trans hlater) (by omega)) (hlater.kept hnew)).2

/-- A node above parts. -/
theorem above {result : NodeId → Tree → Nat → Prop}
    (hbefore : before = rootsAt .part kind.children) (hnone : kind.templateParameters = [])
    (hop : ∀ parts, kind ≠ .operationStatement parts)
    (h : ∀ n later depth, known later depth → later.kind? n = some kind →
      later.Sound kind ∧ result n later (depth + 1)) :
    Lowers start known before (addNode start.size kind)
      (fun n after => after = rootsAt kind.role [n]) result :=
  .node (fun _ => rfl) (fun _ _ _ hadds => (hbefore ▸ hadds).addPart hnone
    fun parts hkind => absurd hkind (hop parts)) h

/-- A declaration above its decorators, its template parameters and other parts. -/
theorem declaration {result : NodeId → Tree → Nat → Prop} (others : List NodeId)
    (hbefore : before = rootsAt .part kind.decorators ++
      rootsAt .parameter kind.templateParameters ++ rootsAt .part others)
    (hchild : kind.children = kind.decorators ++ kind.templateParameters ++ others)
    (hop : ∀ parts, kind ≠ .operationStatement parts)
    (h : ∀ n later depth, known later depth → later.kind? n = some kind →
      later.Sound kind ∧ result n later (depth + 1)) :
    Lowers start known before (addNode start.size kind)
      (fun n after => after = rootsAt kind.role [n]) result :=
  .node (fun _ => rfl) (fun _ _ _ hadds => (hbefore ▸ hadds).addDeclaration hchild hop) h

end Lowers

namespace Describes

/-- A description begins where it is added. -/
theorem block {f : Nat → StateM Tree α} (h : ∀ start known, Lowers start known [] (f start.size)
    (fun a after => after = roots a) result) : Describes roots (position >>= f) result := by
  intro start known before tree hadds hknown
  obtain ⟨⟨_, rfl, hadds'⟩, hext⟩ := h tree known tree (.refl hadds.wellFormed) hknown
  exact ⟨⟨_, rfl, hadds.append hadds'⟩, hext.keeps, hext.grammatical, hext.result⟩

theorem leaf {result : NodeId → Tree → Nat → Prop} (hchild : kind.children = [])
    (hsound : ∀ tree : Tree, tree.Sound kind) (hnone : kind.templateParameters = [])
    (h : ∀ n later depth, later.kind? n = some kind → result n later (depth + 1)) :
    Describes (fun n => rootsAt kind.role [n]) (position >>= fun start => addNode start kind) result :=
  .block fun start known => .above (by rw [hchild]; rfl) hnone
    (fun parts hkind => by simp [hkind] at hchild)
    fun n later depth _ hkind => ⟨hsound later, h n later depth hkind⟩

section

variable {read : Tree → Nat → NodeId → Option β}

theorem none : ReadsAll role (Pure.pure []) read [] :=
  fun _ _ before => .pure (List.append_nil before).symm fun _ _ _ => rfl

theorem cons {m : StateM Tree NodeId} {ms : StateM Tree (List NodeId)} {value : β} {values : List β}
    (hm : Reads role m read value) (hms : ReadsAll role ms read values) :
    ReadsAll role (do let n ← m; let ids ← ms; Pure.pure (n :: ids)) read (value :: values) :=
  fun _ _ _ => .part hm fun n => .part hms fun ids => .pure (by simp [rootsAt])
    fun later depth ⟨⟨_, hn⟩, hids⟩ => by simp [hn, hids]

/-- Descriptions that are added one after the other are read one after the other. -/
theorem mapM {γ : Type} {f : γ → StateM Tree NodeId} {value : γ → β}
    (hf : ∀ x, Reads role (f x) read (value x)) (xs : List γ) :
    ReadsAll role (xs.mapM f) read (xs.map value) := by
  induction xs with
  | nil => exact none
  | cons x rest ih =>
    rw [List.mapM_cons]
    exact cons (hf x) ih

end

/-- A description that is added to a tree by itself. -/
theorem run (h : Describes roots m result) (hwf : tree.WellFormed) :
    Adds tree (m tree).2 (roots (m tree).1) ∧ tree.Extends m result := by
  obtain ⟨⟨_, rfl, hadds⟩, hext⟩ :=
    h tree (fun _ _ => True) [] tree (.refl hwf) fun _ _ _ _ => trivial
  exact ⟨hadds, hext⟩

end Describes

end

end Tree

end ApiSchema
