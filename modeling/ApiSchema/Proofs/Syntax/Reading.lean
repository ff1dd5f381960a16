import ApiSchema.Proofs.Syntax.Grammar

/-!
# Reading descriptions back

The readers below turn nodes into descriptions again: a chain of member expressions becomes a dotted
path, and the parameters of an operation are the members of its model expression. Whatever is added
to a tree later, the node of a file is read as the file, in which each namespace with a dotted name
is written as a chain of nested namespaces.
-/

namespace ApiSchema

open DottedPath List NodeKind Statement

/-- A path is made of its segments. -/
theorem DottedPath.join_segments (path : String) : join (segments path) = path := by
  rw [join, segments, String.ext_iff, String.toList_intercalate, map_map]
  have hid : String.toList ∘ String.ofList = id := funext fun _ => String.toList_ofList
  rw [hid, map_id]
  exact intercalate_splitOn '.'

mutual

/-- The statement with its namespaces nested: of a dotted name the innermost segment has the body,
the decorators and the blockless mark. -/
def Statement.nested : Statement → Statement
  | .namespaceDecl path blockless body decorations =>
    (splitLast path).1.foldr (fun name inner => .namespaceDecl name false [inner] [])
      (.namespaceDecl (splitLast path).2 blockless (nestedAll body) decorations)
  | statement => statement

def Statement.nestedAll : List Statement → List Statement
  | [] => []
  | statement :: rest => statement.nested :: nestedAll rest

end

/-- The place of the node of a statement. -/
def Statement.role : Statement → NodeRole
  | .operationDecl _ => .part
  | _ => .statement

namespace Tree

/-! ### Readers -/

/-- The segments of a reference, of which there are at most `depth`. -/
def readSegments (tree : Tree) : Nat → NodeId → Option (List String)
  | 0, _ => none
  | depth + 1, n =>
    match tree.kind? n with
    | some (.identifier name) => some [name]
    | some (.memberExpression base member) => (readSegments tree depth base).map (· ++ [member])
    | _ => none

def readPath (tree : Tree) (depth : Nat) (n : NodeId) : Option String :=
  (tree.readSegments depth n).map join

def readParameter (tree : Tree) (n : NodeId) : Option String :=
  match tree.kind? n with
  | some (.templateParameterDeclaration name) => some name
  | _ => none

mutual

/-- The expression that a node of at most `depth` levels stands for. -/
def readExpr (tree : Tree) : Nat → NodeId → Option Expr
  | 0, _ => none
  | depth + 1, n =>
    match tree.kind? n with
    | some (.typeReference target arguments) => do
      return .reference (← tree.readPath depth target) (← arguments.mapM (readExpr tree depth))
    | some (.modelExpression members) => do
      return .model (← members.mapM (readMember tree depth))
    | some (.unionExpression options) => do
      return .union (← options.mapM (readExpr tree depth))
    | some (.intersectionExpression operands) => do
      return .intersection (← operands.mapM (readExpr tree depth))
    | some (.arrayExpression element) => do return .array (← readExpr tree depth element)
    | some (.tupleExpression values) => do return .tuple (← values.mapM (readExpr tree depth))
    | some (.stringLiteral value) => some (.string value)
    | some (.numericLiteral value) => some (.number value)
    | some (.booleanLiteral value) => some (.boolean value)
    | _ => none

def readMember (tree : Tree) : Nat → NodeId → Option Member
  | 0, _ => none
  | depth + 1, n =>
    match tree.kind? n with
    | some (.modelProperty parts) => do
      return .property parts.name parts.optional (← readExpr tree depth parts.value)
        (← parts.defaultValue.mapM (readExpr tree depth))
        (← parts.decorators.mapM (readDecoration tree depth))
    | some (.modelSpreadProperty target) => do return .spread (← readExpr tree depth target)
    | _ => none

def readDecoration (tree : Tree) : Nat → NodeId → Option Decoration
  | 0, _ => none
  | depth + 1, n =>
    match tree.kind? n with
    | some (.decoratorExpression target arguments) => do
      return .mk (← tree.readPath depth target) (← arguments.mapM (readExpr tree depth))
    | _ => none

end

def readOperation (tree : Tree) : Nat → NodeId → Option Operation
  | 0, _ => none
  | depth + 1, n =>
    match tree.kind? n with
    | some (.operationStatement parts) => do
      let .model parameters ← tree.readExpr depth parts.parameters | none
      return ⟨parts.name, parameters, ← tree.readExpr depth parts.returns,
        ← parts.decorators.mapM (tree.readDecoration depth)⟩
    | _ => none

def readEnumMember (tree : Tree) : Nat → NodeId → Option EnumMember
  | 0, _ => none
  | depth + 1, n =>
    match tree.kind? n with
    | some (.enumMember parts) => do
      return ⟨parts.name, ← parts.value.mapM (tree.readExpr depth),
        ← parts.decorators.mapM (tree.readDecoration depth)⟩
    | _ => none

/-- The statement that a node of at most `depth` levels stands for. -/
def readStatement (tree : Tree) : Nat → NodeId → Option Statement
  | 0, _ => none
  | depth + 1, n =>
    match tree.kind? n with
    | some (.modelStatement parts) => do
      return .modelDecl parts.name (← parts.templateParameters.mapM tree.readParameter)
        (← parts.base.mapM (tree.readExpr depth)) (← parts.copied.mapM (tree.readExpr depth))
        (← parts.members.mapM (tree.readMember depth))
        (← parts.decorators.mapM (tree.readDecoration depth))
    | some (.namespaceStatement parts) => do
      return .namespaceDecl parts.name parts.blockless
        (← parts.statements.mapM (readStatement tree depth))
        (← parts.decorators.mapM (tree.readDecoration depth))
    | some (.usingStatement target) => do return .usingDecl (← tree.readPath depth target)
    | some (.operationStatement _) => do return .operationDecl (← tree.readOperation (depth + 1) n)
    | some (.interfaceStatement parts) => do
      return .interfaceDecl parts.name (← parts.templateParameters.mapM tree.readParameter)
        (← parts.mixins.mapM (tree.readExpr depth))
        (← parts.operations.mapM (tree.readOperation depth))
        (← parts.decorators.mapM (tree.readDecoration depth))
    | some (.enumStatement parts) => do
      return .enumDecl parts.name (← parts.members.mapM (tree.readEnumMember depth))
        (← parts.decorators.mapM (tree.readDecoration depth))
    | some (.aliasStatement parts) => do
      return .aliasDecl parts.name (← parts.templateParameters.mapM tree.readParameter)
        (← tree.readExpr depth parts.value)
    | _ => none

/-- The file that a node stands for. -/
def readFile (tree : Tree) : Nat → NodeId → Option SourceFile
  | 0, _ => none
  | depth + 1, n =>
    match tree.kind? n with
    | some (.sourceFile name statements) => do
      return ⟨name, ← statements.mapM (tree.readStatement depth)⟩
    | _ => none

/-- The computation adds at most one tree of nodes, which is read as an expression. -/
abbrev ReadsOptional (m : StateM Tree (Option NodeId)) (expr : Option Expr) : Prop :=
  Describes (fun id => rootsAt .part id.toList) m fun id later depth =>
    id.mapM (later.readExpr depth) = some expr

/-! ### What can be read is grammatical -/

variable {tree start : Tree} {depth : Nat} {n : NodeId} {known : Tree → Nat → Prop}
  {before : List (NodeId × NodeRole)} {ids : List NodeId} {statement : Statement}

/-- What is read as an expression is one. -/
theorem stands_of_readExpr {expr : Expr} (h : tree.readExpr depth n = some expr) :
    tree.Stands isExpression n := by
  unfold readExpr at h
  split at h
  · cases h
  · split at h <;> first | exact ⟨_, ‹_›, rfl⟩ | cases h

/-- What is read as expressions is some. -/
theorem stands_of_readExprs {exprs : List Expr} (h : ids.mapM (tree.readExpr depth) = some exprs) :
    ∀ c ∈ ids, tree.Stands isExpression c := fun c hc => by
  obtain ⟨expr, -, hexpr⟩ := exists_of_mapM h c hc
  exact stands_of_readExpr hexpr

/-- What may be read as an expression is one. -/
theorem stands_of_readOptional {id : Option NodeId} {expr : Option Expr}
    (h : id.mapM (tree.readExpr depth) = some expr) :
    ∀ c ∈ id.toList, tree.Stands isExpression c := by
  cases id with
  | none => simp
  | some id =>
    simp only [Option.mapM_some, Option.map_eq_map, Option.map_eq_some_iff] at h
    obtain ⟨value, hvalue, -⟩ := h
    simpa using stands_of_readExpr hvalue

/-- What is read as a statement is one. -/
theorem isStatement_of_readStatement (h : tree.readStatement depth n = some statement) :
    tree.Stands isStatement n := by
  unfold readStatement at h
  split at h
  · cases h
  · split at h <;> first | exact ⟨_, ‹_›, rfl⟩ | cases h

/-- Statements may stand in namespaces. -/
theorem stands_of_readStatement (h : tree.readStatement depth n = some statement) :
    tree.Stands isTopLevel n := by
  obtain ⟨kind, hkind, hstmt⟩ := isStatement_of_readStatement h
  exact ⟨kind, hkind, by cases kind <;> first | rfl | exact hstmt⟩

/-- The parts of a file are statements. -/
theorem isStatement_of_readFile {file : SourceFile} (h : tree.readFile depth n = some file) :
    ∀ c ∈ tree.children n, tree.Stands isStatement c := by
  unfold readFile at h
  split at h
  · cases h
  · split at h
    next hkind =>
      simp only [Option.bind_eq_bind, Option.bind_eq_some_iff] at h
      obtain ⟨_, hstmts, -⟩ := h
      intro c hc
      rw [children, hkind] at hc
      obtain ⟨_, -, hread⟩ := exists_of_mapM hstmts c hc
      exact isStatement_of_readStatement hread
    · cases h

/-! ### Adding and reading -/

/-- Each member lengthens the path by a segment. -/
theorem addMemberExpressions_lowers (members names : List String) (root : NodeId) :
    Lowers start (fun later depth => known later depth ∧ later.readSegments depth root = some names)
      (rootsAt .part [root])
      (members.foldlM (fun base member => addNode start.size (.memberExpression base member)) root)
      (fun n after => after = rootsAt .part [n])
      fun n later depth => later.readSegments depth n = some (names ++ members) := by
  induction members generalizing known names root with
  | nil => exact .pure rfl fun later depth h => by simpa using h.2
  | cons member rest ih =>
    rw [foldlM_cons]
    have hfirst : Lowers start
        (fun later depth => known later depth ∧ later.readSegments depth root = some names)
        (rootsAt .part [root]) (addNode start.size (.memberExpression root member))
        (fun n after => after = rootsAt .part [n])
        fun n later depth => later.readSegments depth n = some (names ++ [member]) :=
      .above rfl rfl nofun fun n later depth h hkind =>
        ⟨⟨nofun, nofun⟩, by simp [readSegments, hkind, h.2]⟩
    refine hfirst.bind fun n _ heq => heq ▸ ?_
    simpa using ih (names ++ [member]) n

/-- A path is read back. -/
theorem addPath_reads (path : String) : Reads .part (addPath path) readPath path := by
  rw [addPath]
  refine .block fun start known => ?_
  have hpath := join_segments path
  cases hsegments : segments path with
  | nil =>
    rw [hsegments] at hpath
    exact .above rfl rfl nofun fun n later depth _ hkind =>
      ⟨⟨nofun, nofun⟩, by simp [readPath, readSegments, hkind, ← hpath, join]⟩
  | cons first rest =>
    rw [hsegments] at hpath
    have hroot : Lowers start known [] (addNode start.size (.identifier first))
        (fun n after => after = rootsAt .part [n])
        fun n later depth => later.readSegments depth n = some [first] :=
      .above rfl rfl nofun fun n later depth _ hkind =>
        ⟨⟨nofun, nofun⟩, by simp [readSegments, hkind]⟩
    exact (hroot.bind fun root _ heq => heq ▸ addMemberExpressions_lowers rest [first] root).mono
      fun h => by simp [readPath, h, hpath]

/-- Template parameters are read back. -/
theorem addTemplateParameters_reads (names : List String) :
    ReadsAll .parameter (addTemplateParameters names) (fun later _ => later.readParameter) names := by
  have hname : ∀ name, Reads .parameter (do addNode (← position) (.templateParameterDeclaration name))
      (fun later _ => later.readParameter) name :=
    fun name => .leaf rfl (fun _ => ⟨nofun, nofun⟩) rfl fun _ _ _ hkind => by
      simp [readParameter, hkind]
  rw [addTemplateParameters]
  simpa only [map_id'] using Describes.mapM hname names

mutual

/-- An expression is read back. -/
theorem addExpr_reads : ∀ expr : Expr, Reads .part (addExpr expr) readExpr expr
  | .reference path arguments => by
    rw [addExpr]
    exact .block fun _ _ => .part (addPath_reads path) fun target =>
      .part (addExprs_reads arguments) fun ids =>
      .above rfl rfl nofun fun _ _ _ ⟨⟨_, hpath⟩, hids⟩ hkind =>
        ⟨⟨stands_of_readExprs hids, nofun⟩, by simp [readExpr, hkind, hpath, hids]⟩
  | .model members => by
    rw [addExpr]
    exact .block fun _ _ => .part (addMembers_reads members) fun ids =>
      .above rfl rfl nofun fun _ _ _ ⟨_, hids⟩ hkind =>
        ⟨⟨nofun, nofun⟩, by simp [readExpr, hkind, hids]⟩
  | .union exprs | .intersection exprs | .tuple exprs => by
    rw [addExpr]
    exact .block fun _ _ => .part (addExprs_reads exprs) fun ids =>
      .above rfl rfl nofun fun _ _ _ ⟨_, hids⟩ hkind =>
        ⟨⟨stands_of_readExprs hids, nofun⟩, by simp [readExpr, hkind, hids]⟩
  | .array element => by
    rw [addExpr]
    exact .block fun _ _ => .part (addExpr_reads element) fun id =>
      .above rfl rfl nofun fun _ _ _ ⟨_, hid⟩ hkind =>
        ⟨⟨by simpa [operands] using stands_of_readExpr hid, nofun⟩,
          by simp [readExpr, hkind, hid]⟩
  | .string value | .number value | .boolean value => by
    rw [addExpr]
    exact .leaf rfl (fun _ => ⟨nofun, nofun⟩) rfl fun _ _ _ hkind => by
      simp [readExpr, hkind]

/-- Expressions are read back. -/
theorem addExprs_reads : ∀ exprs : List Expr, ReadsAll .part (addExprs exprs) readExpr exprs
  | [] => .none
  | expr :: rest => .cons (addExpr_reads expr) (addExprs_reads rest)

/-- An expression that may be missing is read back. -/
theorem addOptionalExpr_reads : ∀ expr : Option Expr, ReadsOptional (addOptionalExpr expr) expr
  | none => fun _ _ before => .pure (append_nil before).symm fun _ _ _ => rfl
  | some expr => fun _ _ _ => .part (addExpr_reads expr) fun id =>
      .pure rfl fun later depth ⟨_, hid⟩ => by simp [hid]

/-- A member of a model is read back. -/
theorem addMember_reads : ∀ member : Member, Reads .part (addMember member) readMember member
  | .property name optional type defaultValue decorations => by
    rw [addMember]
    exact .block fun _ _ => .part (addDecorations_reads decorations) fun decorators =>
      .part (addExpr_reads type) fun value => .part (addOptionalExpr_reads defaultValue) fun default =>
      .above (by simp [rootsAt]) rfl nofun
        fun _ _ _ ⟨⟨⟨_, hdecs⟩, hvalue⟩, hdefault⟩ hkind =>
          ⟨⟨forall_mem_cons.mpr ⟨stands_of_readExpr hvalue, stands_of_readOptional hdefault⟩,
            nofun⟩, by simp [readMember, hkind, hdecs, hvalue, hdefault]⟩
  | .spread target => by
    rw [addMember]
    exact .block fun _ _ => .part (addExpr_reads target) fun id =>
      .above rfl rfl nofun fun _ _ _ ⟨_, hid⟩ hkind =>
        ⟨⟨by simpa [operands] using stands_of_readExpr hid, nofun⟩,
          by simp [readMember, hkind, hid]⟩

/-- The members of a model are read back. -/
theorem addMembers_reads : ∀ members : List Member,
    ReadsAll .part (addMembers members) readMember members
  | [] => .none
  | member :: rest => .cons (addMember_reads member) (addMembers_reads rest)

/-- A decorator is read back. -/
theorem addDecoration_reads : ∀ decoration : Decoration,
    Reads .part (addDecoration decoration) readDecoration decoration
  | .mk path arguments => by
    rw [addDecoration]
    exact .block fun _ _ => .part (addPath_reads path) fun target =>
      .part (addExprs_reads arguments) fun ids =>
      .above rfl rfl nofun fun _ _ _ ⟨⟨_, hpath⟩, hids⟩ hkind =>
        ⟨⟨stands_of_readExprs hids, nofun⟩, by simp [readDecoration, hkind, hpath, hids]⟩

/-- Decorators are read back. -/
theorem addDecorations_reads : ∀ decorations : List Decoration,
    ReadsAll .part (addDecorations decorations) readDecoration decorations
  | [] => .none
  | decoration :: rest => .cons (addDecoration_reads decoration) (addDecorations_reads rest)

end

/-- What is read as a model is a model expression. -/
theorem exists_members_of_readExpr {members : List Member}
    (h : tree.readExpr depth n = some (.model members)) :
    ∃ ids, tree.kind? n = some (.modelExpression ids) := by
  unfold readExpr at h
  split at h
  · cases h
  · split at h <;> first | exact ⟨_, ‹_›⟩ | simp [Option.bind_eq_some_iff] at h

/-- An operation is read back. -/
theorem addOperation_reads (operation : Operation) :
    Reads .part (addOperation operation) readOperation operation :=
  .block fun _ _ => .part (addDecorations_reads operation.decorations) fun decorators =>
    .part (addExpr_reads (.model operation.parameters)) fun parameters =>
    .part (addExpr_reads operation.returns) fun returns => .node (fun _ => rfl)
      (fun tree depth ⟨⟨_, hparams⟩, _⟩ hadds => by
        refine Adds.addPart (by simpa [rootsAt] using hadds) rfl fun parts hparts => ?_
        cases hparts
        exact exists_members_of_readExpr hparams)
      fun _ _ _ ⟨⟨⟨_, hdecs⟩, hparams⟩, hreturns⟩ hkind =>
        ⟨⟨by simpa [operands] using
            ⟨stands_of_readExpr hparams, stands_of_readExpr hreturns⟩, nofun⟩,
          by simp [readOperation, hkind, hdecs, hparams, hreturns]⟩

/-- Operations are statements. -/
theorem readStatement_of_readOperation {operation : Operation}
    (h : tree.readOperation depth n = some operation) :
    tree.readStatement depth n = some (.operationDecl operation) := by
  have hread := h
  unfold readOperation at h
  split at h
  · cases h
  · split at h
    next hkind =>
      simp [readStatement, hkind, hread]
    · cases h

/-- A member of an enum is read back. -/
theorem addEnumMember_reads (member : EnumMember) :
    Reads .part (addEnumMember member) readEnumMember member :=
  .block fun _ _ => .part (addDecorations_reads member.decorations) fun decorators =>
    .part (addOptionalExpr_reads member.value) fun value =>
    .above (by simp [rootsAt]) rfl nofun
      fun _ _ _ ⟨⟨_, hdecs⟩, hvalue⟩ hkind => ⟨⟨stands_of_readOptional hvalue, nofun⟩,
        by simp [readEnumMember, hkind, hdecs, hvalue]⟩

/-! ### Statements -/

/-- Names are wrapped around a statement. -/
theorem wrapNamespace_lowers (names : List String) (inner : NodeId) (statement : Statement) :
    Lowers start
      (fun later depth => known later depth ∧ later.readStatement depth inner = some statement)
      (rootsAt .statement [inner]) (wrapNamespace start.size names inner)
      (fun n after => after = rootsAt .statement [n]) fun n later depth =>
        later.readStatement depth n =
          some (names.foldr (fun name inner => .namespaceDecl name false [inner] []) statement) := by
  rw [wrapNamespace, ← foldl_reverse]
  -- The names are wrapped from the innermost one outwards.
  induction names.reverse generalizing known inner statement with
  | nil => exact .pure rfl fun later depth h => h.2
  | cons name rest ih =>
    rw [foldlM_cons, foldl_cons]
    have hplace : Placeable (rootsAt .statement [inner]) := by
      intro r hr
      simp [(mem_rootsAt.mp hr).2]
    have hfirst : Lowers start
        (fun later depth => known later depth ∧ later.readStatement depth inner = some statement)
        (rootsAt .statement [inner])
        (addNode start.size (.namespaceStatement ⟨name, [inner], false, []⟩))
        (fun n after => after = rootsAt .statement [n]) fun n later depth =>
          later.readStatement depth n = some (.namespaceDecl name false [statement] []) :=
      .node (fun _ => rfl) (fun _ _ _ hadds => hadds.addScope rfl hplace rfl nofun)
        fun n later depth h hkind =>
          ⟨⟨nofun, by simpa [statements] using stands_of_readStatement h.2⟩,
            by simp [readStatement, hkind, h.2]⟩
    exact hfirst.bind fun n _ heq => heq ▸ ih n _

/-- The computation adds statements. -/
abbrev ReadsStatements (m : StateM Tree (List NodeId)) (statements : List Statement) : Prop :=
  ∀ (start : Tree) (known : Tree → Nat → Prop) (before : List (NodeId × NodeRole)),
    Lowers start known before m
      (fun ids after => ∃ roots, Placeable roots ∧ roots.map Prod.fst = ids ∧ after = before ++ roots)
      fun ids later depth => ids.mapM (later.readStatement depth) = some statements

/-- What is read as statements may stand in namespaces. -/
theorem stands_of_readStatements {statements : List Statement}
    (h : ids.mapM (tree.readStatement depth) = some statements) :
    ∀ c ∈ ids, tree.Stands isTopLevel c := fun c hc => by
  obtain ⟨statement, -, hstmt⟩ := exists_of_mapM h c hc
  exact stands_of_readStatement hstmt

mutual

/-- A statement is read back with its namespaces nested. -/
theorem addStatement_reads : ∀ statement : Statement,
    Reads statement.role (addStatement statement) readStatement statement.nested
  | .modelDecl name parameters base copied members decorations => by
    rw [addStatement]
    exact .block fun _ _ => .part (addDecorations_reads decorations) fun decorators =>
      .part (addTemplateParameters_reads parameters) fun parameters =>
      .part (addOptionalExpr_reads base) fun base => .part (addOptionalExpr_reads copied) fun copied =>
      .part (addMembers_reads members) fun members =>
      .declaration (base.toList ++ copied.toList ++ members) (by
          simp [rootsAt, NodeKind.decorators])
        (by simp [NodeKind.decorators]) nofun
        fun _ _ _ ⟨⟨⟨⟨⟨_, hdecs⟩, hparams⟩, hbase⟩, hcopied⟩, hmems⟩ hkind =>
          ⟨⟨forall_mem_append.mpr ⟨stands_of_readOptional hbase, stands_of_readOptional hcopied⟩,
            nofun⟩, by simp [readStatement, hkind, hdecs, hparams, hbase, hcopied, hmems,
              nested]⟩
  | .namespaceDecl path blockless body decorations => by
    rw [addStatement, nested]
    refine .block fun _ _ => .part (addDecorations_reads decorations) fun decorators =>
      .bind (addStatements_reads body _ _ _) fun statements after ⟨roots, hplace, hroots, hafter⟩ =>
      .bind (.node (fun _ => rfl) (fun tree depth hknown hadds => ?_)
        fun _ _ _ ⟨⟨_, hdecs⟩, hstmts⟩ hkind =>
          ⟨⟨nofun, stands_of_readStatements hstmts⟩, ?_⟩)
        fun inner _ heq => heq ▸ wrapNamespace_lowers _ inner _
    · subst hafter
      refine hadds.addScope (by simp [hroots]) (fun r hr => ?_) rfl fun r hr hd => ?_
      · rcases mem_append.mp hr with hr | hr
        · simp [(mem_rootsAt.mp hr).2]
        · exact hplace r hr
      · rcases mem_append.mp hr with hr | hr
        · exact (mem_rootsAt.mp hr).2
        · have hsorted := hadds.sorted
          rw [map_append, pairwise_append] at hsorted
          have hlt := hsorted.2.2 r.1 (by simpa [NodeKind.decorators] using hd) r.1 (mem_map_of_mem hr)
          omega
    · simp [readStatement, hkind, hdecs, hstmts, splitLast]
  | .usingDecl path => by
    rw [addStatement]
    exact .block fun _ _ => .part (addPath_reads path) fun target =>
      .above rfl rfl nofun fun _ _ _ ⟨_, hpath⟩ hkind =>
        ⟨⟨nofun, nofun⟩, by simp [readStatement, hkind, hpath, nested]⟩
  | .operationDecl operation => by
    rw [addStatement]
    exact fun _ _ _ => (addOperation_reads operation _ _ _).mono readStatement_of_readOperation
  | .interfaceDecl name parameters mixins operations decorations => by
    rw [addStatement]
    exact .block fun _ _ => .part (addDecorations_reads decorations) fun decorators =>
      .part (addTemplateParameters_reads parameters) fun parameters =>
      .part (addExprs_reads mixins) fun mixins =>
      .part (.mapM addOperation_reads operations) fun operations =>
      .declaration (mixins ++ operations) (by
          simp [rootsAt, NodeKind.decorators])
        (by simp [NodeKind.decorators]) nofun
        fun _ _ _ ⟨⟨⟨⟨_, hdecs⟩, hparams⟩, hmixins⟩, hops⟩ hkind =>
          ⟨⟨stands_of_readExprs hmixins, nofun⟩, by
            simp [readStatement, hkind, hdecs, hparams, hmixins, hops,
              nested]⟩
  | .enumDecl name members decorations => by
    rw [addStatement]
    exact .block fun _ _ => .part (addDecorations_reads decorations) fun decorators =>
      .part (.mapM addEnumMember_reads members) fun members =>
      .above (by simp [rootsAt]) rfl nofun
        fun _ _ _ ⟨⟨_, hdecs⟩, hmems⟩ hkind => ⟨⟨nofun, nofun⟩, by
          simp [readStatement, hkind, hdecs, hmems, nested]⟩
  | .aliasDecl name parameters value => by
    rw [addStatement]
    exact .block fun _ _ => .part (addTemplateParameters_reads parameters) fun parameters =>
      .part (addExpr_reads value) fun value => .declaration [value] rfl rfl nofun
        fun _ _ _ ⟨⟨_, hparams⟩, hvalue⟩ hkind =>
          ⟨⟨by simpa [operands] using stands_of_readExpr hvalue, nofun⟩,
            by simp [readStatement, hkind, hparams, hvalue, nested]⟩

/-- Statements are read back with their namespaces nested. -/
theorem addStatements_reads : ∀ statements : List Statement,
    ReadsStatements (addStatements statements) (nestedAll statements)
  | [] => fun _ _ before => .pure ⟨[], nofun, rfl, (append_nil before).symm⟩ fun _ _ _ => rfl
  | statement :: rest => by
    intro start known before
    rw [addStatements]
    refine .part (addStatement_reads statement) fun n => .bind (addStatements_reads rest _ _ _)
      fun ids after ⟨roots, hplace, hroots, hafter⟩ => .pure
        ⟨rootsAt statement.role [n] ++ roots, ?_, by simp [hroots], by simp [hafter]⟩
        fun later depth ⟨⟨_, hn⟩, hids⟩ => by simp [hn, hids, nestedAll]
    intro r hr
    rcases mem_append.mp hr with hr | hr
    · rw [(mem_rootsAt.mp hr).2]
      cases statement <;> simp [Statement.role]
    · exact hplace r hr

end

/-- The node of a file stands above the statements of the file. -/
theorem addFileNode_reads (file : SourceFile) :
    Reads .file (do
      let start ← position
      addNode start (.sourceFile file.name (← addStatements file.body)))
      readFile ⟨file.name, nestedAll file.body⟩ :=
  .block fun start known => .bind (addStatements_reads file.body _ _ _)
    fun statements after ⟨roots, hplace, hroots, hafter⟩ => .node (fun _ => rfl)
      (fun tree depth _ hadds => hadds.addScope (by simp [hafter, hroots])
        (hafter ▸ hplace) rfl nofun)
      fun _ _ _ ⟨_, hstmts⟩ hkind => ⟨⟨nofun, stands_of_readStatements hstmts⟩,
        by simp [readFile, hkind, hstmts]⟩

end Tree

end ApiSchema
