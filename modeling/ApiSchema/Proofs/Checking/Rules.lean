import ApiSchema.Proofs.Checking.BasicRules
import ApiSchema.Proofs.Checking.Evaluation

/-!
# Rules for checks

A relation between computations that is passed on from the parts to the whole holds of all checks if
it holds of the few things that a check does to the state. `Rules` lists these things. This module
goes through the checker once and shows that the relation then holds of every construct if it holds
of the checks that the construct calls for.

Model statements are left out, since what a model comes to extend is not dealt with in the same way
by all relations.
-/

namespace ApiSchema

open TypeTable TypeShape NodeKind

variable {kind : NodeKind} {members operations options values operands : List NodeId}
  {parts : OperationNode} {shape : TypeShape}

/-- A node, or a node inside it, asks for the type of an operand. -/
inductive Tree.Needs (tree : Tree) : NodeId → NodeId → Prop
  | operand {n c : NodeId} {kind : NodeKind} : tree.kind? n = some kind → c ∈ kind.operands →
    Needs tree n c
  | inside {n m c : NodeId} : m ∈ tree.children n → Needs tree m c → Needs tree n c

/-- What is needed by a child of a node is needed by the node. -/
theorem Tree.Needs.child {tree : Tree} {n m c : NodeId} (hkind : tree.kind? n = some kind)
    (hm : m ∈ kind.children) (h : tree.Needs m c) :
    tree.Needs n c :=
  .inside (by simpa [Tree.children, hkind] using hm) h

namespace Checking

variable {α β : Type} {tree : Tree} {check check' : Check} {node : NodeId}

/-- Whether a row is built from a model statement. -/
def Stated (tree : Tree) (row : TypeRecord) : Prop :=
  ∃ m n parts, row.shape = .model m ∧ row.node = some n ∧
    tree.kind? n = some (.modelStatement parts)

/-- A row whose node is no model statement is not built from one. -/
theorem not_stated (hkind : tree.kind? node = some kind)
    (h : ∀ parts, kind ≠ .modelStatement parts) : ¬ Stated tree ⟨some node, shape⟩ := by
  rintro ⟨_, n, parts, -, hn, hparts⟩
  cases hn
  exact h parts (Option.some.inj (hkind.symm.trans hparts))

/-- Computations are the same if they have the same runs. -/
theorem eq_of_runs {m m' : CheckM α}
    (h : ∀ env s a s', m env s = some (a, s') ↔ m' env s = some (a, s')) : m = m' :=
  funext fun env => funext fun s => Option.ext fun p => h env s p.1 p.2

/-- A change that depends on the state it is made in. -/
theorem get_modify (g : State → State → State) (f : PUnit → CheckM β) :
    (get >>= fun s => modify (g s) >>= f) = (modify fun s => g s s) >>= f := rfl

/-- A change of the state that makes no difference to which types are known and under construction,
and that does not depend on the log. -/
structure Marginal (g : State → State) : Prop where
  only (s : State) : g s = { s with
    building := (g s).building
    literalTypes := (g s).literalTypes
    finished := (g s).finished
    references := (g s).references
    readings := (g s).readings }
  core (s : State) : (g s).core = g s.core

/-- A relation between computations that is passed on from the parts of a check to the whole.
Complaints about what models extend are left out. -/
structure Rules (tree : Tree) extends BasicRules tree (· ≠ .recursiveBase) where
  getTypes_bind {β : Type} {f f' : TypeTable → CheckM β} : (∀ types, holds (f types) (f' types)) →
    holds (getTypes >>= f) (getTypes >>= f')
  shouldFinish_bind {β : Type} {f f' : Bool → CheckM β} (node : NodeId) :
    (∀ finish, holds (f finish) (f' finish)) → holds (shouldFinish node >>= f) (shouldFinish node >>= f')
  resolveReference (target : NodeId) (kind : ReferenceKind) :
    toBasicRules.Keeps (resolveReference target kind)
  internalError (cause : InternalError) : toBasicRules.Keeps (internalError cause)
  aside {g : State → State} : Marginal g → toBasicRules.Keeps (modify g)
  /-- Neither what models extend nor what names are made of is changed. -/
  amend (id : TypeId) (f : TypeShape → TypeShape) :
    (∀ (types : TypeTable) other, (types.modifyShape id f).heritage? other = types.heritage? other) →
    (∀ shape, (f shape).nameParts = shape.nameParts) →
    toBasicRules.Keeps (modify fun s => s.modifyTypes fun types => types.modifyShape id f)
  addType (place : Option NodeId) (shape : TypeShape) : ¬ Stated tree ⟨place, shape⟩ →
    (∀ m, shape = .model m → m.base = none) → toBasicRules.Keeps (addType place shape)
  runDecorator (target : TypeId) (application : DecoratorApplication) :
    toBasicRules.Keeps (runDecorator target application)
  /-- The declarations of models are left out. -/
  declare {node : NodeId} {kind : NodeKind} {known : State → TypeId} {isTemplate : Bool}
    (type : TypeId) (key : List TypeId) : tree.kind? node = some kind →
    kind.symbolKind? ≠ some .model → (isTemplate = true → kind.templateParameters ≠ []) →
    (∀ s, known s.core = known s) →
    toBasicRules.Keeps (modify fun s => s.declare (s.bindings.symbolOf? node) (known s) type isTemplate key)

/-- The relation holds of all checks that a node calls for by itself. -/
def Rules.Serves (r : Rules tree) (check check' : Check) (node : NodeId) : Prop :=
  ∀ c, tree.Needs node c → r.holds (check c) (check' c)

/-- The operands of a node are checked for it. -/
theorem Rules.Serves.operand {r : Rules tree} {c : NodeId} (h : r.Serves check check' node)
    (hkind : tree.kind? node = some kind) (hc : c ∈ kind.operands) : r.holds (check c) (check' c) :=
  h c (.operand hkind hc)

/-- What serves a node serves its children. -/
theorem Rules.Serves.child {r : Rules tree} {m : NodeId} (h : r.Serves check check' node)
    (hkind : tree.kind? node = some kind) (hm : m ∈ kind.children) : r.Serves check check' m :=
  fun c hc => h c (.child hkind hm hc)

/-- Only the decorators of a node call for checks. -/
theorem Rules.Serves.decorators {r : Rules tree} (h : r.Serves check check' node) :
    ∀ d ∈ tree.decorators node, r.Serves check check' d :=
  fun _ hd c hc => h c (.inside (Tree.mem_children_of_decorator hd) hc)

namespace Rules

variable (r : Rules tree)

/-! ### Composed computations -/

/-- A model is marked while it is built. -/
theorem whileBuilding (model : TypeId) {m m' : CheckM α} (hm : r.holds m m') :
    r.holds (whileBuilding model m) (whileBuilding model m') :=
  r.look rfl rfl fun _ => r.bind (r.aside ⟨fun _ => rfl, fun _ => rfl⟩) fun _ =>
    r.bind hm fun _ => r.bind (r.aside ⟨fun _ => rfl, fun _ => rfl⟩) fun _ => r.pure _

/-! ### Steps that call for no checks -/

/-- A type other than a model is added. -/
theorem addOther (place : Option NodeId) (h : ∀ m, shape ≠ .model m) :
    r.Keeps (Checking.addType place shape) :=
  r.addType _ _ (fun ⟨m, _, _, hm, _⟩ => h m hm) fun m hm => absurd hm (h m)

/-- The decorators of a type are run in turn. -/
theorem runDecorators (target : TypeId) (applications : List DecoratorApplication) :
    r.Keeps (runDecorators target applications) :=
  r.bind (r.aside ⟨fun _ => rfl, fun _ => rfl⟩) fun _ => r.forM fun _ _ => r.runDecorator target _

/-- A type is finished by running its decorators. -/
theorem finishType (type : TypeId) : r.Keeps (finishType type) :=
  r.getTypes_bind fun _ => r.runDecorators _ _

/-- A type is finished unless it stands in an open template. -/
theorem finishIf (finish : Bool) (type : TypeId) :
    r.Keeps (finishIf finish type) := by
  rw [Checking.finishIf]
  split
  · exact r.finishType _
  · exact r.pure _

/-- A reference is noted. -/
theorem noteReference (reference : Reference) :
    r.Keeps (noteReference reference) :=
  r.aside ⟨fun _ => rfl, fun _ => rfl⟩

/-- A reading is noted. -/
theorem noteReading (reading : Reading) : r.Keeps (noteReading reading) :=
  r.aside ⟨fun _ => rfl, fun _ => rfl⟩

/-- A model is changed, but not what it extends or is called. -/
theorem amendModel (id : TypeId) {f : ModelType → ModelType} (hf : ∀ m, (f m).base = m.base)
    (hname : ∀ m, (model (f m)).nameParts = (model m).nameParts) :
    r.Keeps (modify fun s => s.modifyTypes fun types => types.modifyModel id f) := by
  refine r.amend _ _ (fun _ => heritage?_modifyModel hf id) fun shape => ?_
  cases shape with
  | model m => exact hname m
  | _ => rfl

/-- An interface is changed, but not its name. -/
theorem amendInterface (id : TypeId) {f : InterfaceType → InterfaceType}
    (hname : ∀ i, (interfaceType (f i)).nameParts = (interfaceType i).nameParts) :
    r.Keeps (modify fun s => s.modifyTypes fun types => types.modifyInterface id f) := by
  refine r.amend _ _ (fun _ => heritage?_modifyShape (fun shape _ => by cases shape <;> simp) id)
    fun shape => ?_
  cases shape with
  | interfaceType i => exact hname i
  | _ => rfl

/-- A namespace is changed, but not its place. -/
theorem amendNamespace (id : TypeId) {f : NamespaceType → NamespaceType}
    (hpar : ∀ n, (f n).parentNamespace = n.parentNamespace) :
    r.Keeps (modify fun s => s.modifyTypes fun types => types.modifyNamespace id f) := by
  refine r.amend _ _ (fun _ => heritage?_modifyNamespace f id) fun shape => ?_
  cases shape with
  | namespaceType n => exact congrArg Option.toList (hpar n)
  | _ => rfl

/-- A namespace is filled, if there is one. -/
theorem addToNamespace (parent : Option TypeId) {add : NamespaceType → NamespaceType}
    (hpar : ∀ n, (add n).parentNamespace = n.parentNamespace) :
    r.Keeps (addToNamespace parent add) := by
  cases parent with
  | none => exact r.pure _
  | some id => exact r.amendNamespace id hpar

/-- The symbol that a type is recorded for is looked up just before. -/
theorem record_bind {f f' : Unit → CheckM β} {type : TypeId} {isTemplate : Bool} {key : List TypeId}
    (hdeclare : r.Keeps (modify fun s =>
      s.declare (s.bindings.symbolOf? node) type type isTemplate key))
    (hf : ∀ u, r.holds (f u) (f' u)) :
    r.holds (get >>= fun s : State =>
        recordDeclared (s.bindings.symbolOf? node) type isTemplate key >>= f)
      (get >>= fun s : State =>
        recordDeclared (s.bindings.symbolOf? node) type isTemplate key >>= f') := by
  have hrec : ∀ symbol, recordDeclared symbol type isTemplate key =
      modify fun s : State => s.declare symbol type type isTemplate key := fun symbol =>
    eq_of_runs fun env s u s' => by rw [run_recordDeclared, run_modify]
  simp only [hrec, get_modify]
  exact r.bind hdeclare hf

/-! ### Copies -/

/-- A property is copied. -/
theorem copyProperty (finish : Bool) (source : TypeId) :
    r.Keeps (copyProperty finish source) := by
  refine r.getTypes_bind fun types => ?_
  split
  · exact r.pure _
  · exact r.getTypes_bind fun _ => r.bind (r.addOther _ nofun) fun _ =>
      r.bind (r.finishIf _ _) fun _ => r.pure _

/-- A property is added unless its name is taken. -/
theorem defineProperty (model : TypeId) (inherited : List String) (place : NodeId) (id : TypeId) :
    r.Keeps (defineProperty model inherited place id) := by
  refine r.getTypes_bind fun types => ?_
  split
  · exact r.pure _
  · refine r.getTypes_bind fun types => ?_
    split
    · exact r.report _ _ (by simp)
    · split
      · exact r.report _ _ (by simp)
      · exact r.amendModel _ (fun _ => rfl) fun _ => rfl

/-- Properties are copied and added. -/
theorem copyInto (model : TypeId) (inherited : List String) (finish : Bool) (place : NodeId)
    (properties : List TypeId) :
    r.Keeps (copyInto model inherited finish place properties) :=
  r.bind (r.mapM fun _ _ => r.copyProperty _ _) fun _ => r.forM fun _ _ => r.defineProperty _ _ _ _

/-- A spread copies the properties of a model. -/
theorem spreadInto (model : TypeId) (inherited : List String) (finish : Bool) (member : NodeId)
    (reading : Reading) :
    r.Keeps (spreadInto model inherited finish member reading) := by
  refine r.getTypes_bind fun types => ?_
  split
  · exact r.pure _
  · exact r.copyInto _ _ _ _ _
  · split
    · exact r.report _ _ (by simp)
    · exact r.pure _

/-- The inherited names are read. -/
theorem readInherited (model : TypeId) (owner : NodeId) :
    r.Keeps (readInherited model owner) := by
  refine r.getTypes_bind fun types => ?_
  split
  · exact r.pure _
  · exact r.look rfl rfl fun _ => r.bind (r.noteReading _) fun _ => r.getTypes_bind fun _ => r.pure _

/-- Models are admitted in the same way if complaints about them are made in the same way. -/
theorem admitHeritage (hreport : ∀ message arguments place,
      r.Keeps (Checking.report message arguments place))
    (complaint : Message) (model : TypeId) (place : NodeId) (source : TypeId) :
    r.Keeps (admitHeritage complaint model place source) := by
  refine r.getTypes_bind fun types => ?_
  split
  · exact r.pure _
  · split
    · exact r.getTree_bind (r.bind (hreport _ _ _) fun _ => r.pure _)
    · exact r.pure _
  · split
    · exact r.bind (hreport _ _ _) fun _ => r.pure _
    · exact r.pure _

/-- An operation is copied into an interface. -/
theorem mixOperation (interface : TypeId) (finish : Bool) (mixin : NodeId)
    (operations : OrderedMap String TypeId) (source : TypeId) :
    r.Keeps (mixOperation interface finish mixin operations source) := by
  have hcopy : r.Keeps (copyOperation interface finish source) := by
    refine r.getTypes_bind fun types => ?_
    split
    · exact r.pure _
    · exact r.getTypes_bind fun _ => r.bind (r.addOther _ nofun) fun _ =>
        r.bind (r.finishIf _ _) fun _ => r.pure _
  refine r.bind hcopy fun copy => r.getTypes_bind fun types => ?_
  split
  · exact r.pure _
  · split
    · exact r.reported (by simp)
    · exact r.pure _

/-- The properties of the operands are gathered. -/
theorem intersectOperands (finish : Bool) (operands : List (NodeId × TypeId))
    (properties : OrderedMap String TypeId) :
    r.Keeps (intersectOperands finish operands properties) := by
  induction operands generalizing properties with
  | nil => exact r.pure _
  | cons operand rest ih =>
    refine r.getTypes_bind fun types => ?_
    split
    · exact ih _
    · refine r.bind (r.foldlM (fun id _ properties => r.getTypes_bind fun types => ?_) _) fun _ => ih _
      split
      · exact r.pure _
      · split
        · exact r.reported (by simp)
        · exact r.bind (r.copyProperty _ _) fun _ => r.pure _
    · exact r.reported (by simp)

/-- A literal is looked up or added. -/
theorem checkLiteral (node : NodeId) (literal : Literal) :
    r.Keeps (checkLiteral node literal) := by
  refine r.look rfl rfl fun s => ?_
  split
  · exact r.pure _
  · refine r.bind (r.addOther _ fun m => ?_) fun _ =>
      r.bind (r.aside ⟨fun _ => rfl, fun _ => rfl⟩) fun _ => r.pure _
    cases literal <;> simp

/-- An intrinsic type is added once. -/
theorem checkIntrinsic {name : String} (hkind : tree.kind? node = some (.intrinsicStatement name)) :
    r.Keeps (checkIntrinsic node name) := by
  -- An intrinsic type without a symbol is not recorded, and recording without a symbol does nothing.
  have heq : Checking.checkIntrinsic node name = get >>= fun s =>
      (s.declaredTypeOfNode? node).elim (do
        let type ← Checking.addType (some node) (.intrinsic name)
        modify fun s => s.declare (s.bindings.symbolOf? node) type type false []
        return type) Pure.pure := by
    funext env s
    cases hknown : s.declaredTypeOfNode? node with
    | some type => simp only [Checking.checkIntrinsic, Checking.get_bind, hknown, Option.elim]
    | none =>
      simp only [Checking.checkIntrinsic, Checking.get_bind, hknown, addType_bind, modify_bind,
        Option.elim]
      cases State.bindings _ |>.symbolOf? node <;> rfl
  rw [heq]
  refine r.look rfl rfl fun s => ?_
  cases s.declaredTypeOfNode? node with
  | some type => exact r.pure _
  | none =>
    exact r.bind (r.addOther _ (by simp)) fun type =>
      r.bind (r.declare type [] hkind (by simp) (by simp) fun _ => rfl)
        fun _ => r.pure _

/-! ### Decorators, properties and members -/

/-- A decorator is found and its arguments are checked. -/
theorem checkDecoration (h : r.Serves check check' node) :
    r.holds (checkDecoration check node) (checkDecoration check' node) := by
  refine r.getTree_bind ?_
  split
  next target arguments hkind =>
    refine r.bind (r.resolveReference _ _) fun found => ?_
    split
    · exact r.pure _
    · refine r.look rfl rfl fun s => ?_
      split
      · exact r.pure _
      · split
        · refine r.bind (r.mapM fun c hc => ?_) fun _ => r.pure _
          exact r.bind (h.operand hkind hc) fun _ => r.getTypes_bind fun _ => r.pure _
        · exact r.reported (by simp)
  · exact r.pure _

/-- The decorators of a node are checked in turn. -/
theorem checkDecorators (h : ∀ d ∈ tree.decorators node, r.Serves check check' d) :
    r.holds (checkDecorators check node) (checkDecorators check' node) :=
  r.getTree_bind (r.bind (r.mapM fun d hd => r.checkDecoration (h d hd)) fun _ => r.pure _)

/-- A property is checked with its default and decorators. -/
theorem checkProperty {parts : PropertyNode} (hkind : tree.kind? node = some (.modelProperty parts))
    (h : r.Serves check check' node) :
    r.holds (checkProperty check node parts) (checkProperty check' node parts) := by
  have hdefault : ∀ type, r.holds (checkOptionalDefault check type parts.defaultValue)
      (checkOptionalDefault check' type parts.defaultValue) := by
    intro type
    cases hvalue : parts.defaultValue with
    | none => exact r.pure _
    | some value =>
      refine r.bind (h.operand hkind (by simp [operands, hvalue])) fun _ =>
        r.getTypes_bind fun types => ?_
      split
      · exact r.pure _
      · split
        · exact r.pure _
        · exact r.reported (by simp)
  refine r.bind (h.operand hkind (.head _)) fun type => r.bind (hdefault type) fun _ => ?_
  exact r.bind (r.checkDecorators h.decorators) fun _ =>
    r.bind (r.addOther _ nofun) fun _ => r.shouldFinish_bind _ fun _ =>
      r.bind (r.finishIf _ _) fun _ => r.pure _

/-- The members of a model are properties and spreads. -/
theorem checkMembers (model : TypeId) {owner : NodeId} (h : ∀ m ∈ members, r.Serves check check' m) :
    r.holds (checkMembers check model owner members) (checkMembers check' model owner members) := by
  refine r.bind (r.readInherited _ _) fun inherited => r.shouldFinish_bind _ fun finish =>
    r.forM fun m hm => r.getTree_bind ?_
  split
  next parts hkind =>
    exact r.bind (r.checkProperty hkind (h m hm)) fun _ => r.defineProperty _ _ _ _
  next target hkind =>
    exact r.bind ((h m hm).operand hkind (.head _)) fun _ => r.look rfl rfl fun _ =>
      r.bind (r.spreadInto _ _ _ _ _) fun _ => r.noteReading _
  · exact r.pure _

/-- A model expression is built in place. -/
theorem checkModelExpression (hkind : tree.kind? node = some (.modelExpression members))
    (h : r.Serves check check' node) :
    r.holds (checkModelExpression check node members) (checkModelExpression check' node members) := by
  refine r.bind (r.addType _ _ (not_stated hkind nofun) ?_) fun type =>
    r.bind (r.whileBuilding _ (r.checkMembers _ fun m hm => h.child hkind hm)) fun _ => r.pure _
  rintro _ ⟨⟩
  rfl

/-- What is done for a model after its base is known, if the model that it copies is dealt with. -/
theorem fillModel (type : TypeId) {parts : ModelNode}
    (hkind : tree.kind? node = some (.modelStatement parts)) (h : r.Serves check check' node)
    (hcopied : ∀ finish withBase, r.holds (checkCopied check type finish withBase parts.copied)
      (checkCopied check' type finish withBase parts.copied)) :
    let fill (check : Check) : CheckM Unit := do
      let finish ← shouldFinish node
      let copied ← checkCopied check type finish parts.base.isNone parts.copied
      let own ← Checking.checkDecorators check node
      modify fun s => s.modifyTypes fun types => types.modifyModel type fun m =>
        { m with decorators := copied ++ own }
      Checking.checkMembers check type node parts.members
      Checking.finishIf finish type
    r.holds (fill check) (fill check') := by
  refine r.shouldFinish_bind _ fun finish => r.bind (hcopied _ _) fun _ =>
    r.bind (r.checkDecorators h.decorators) fun _ =>
      r.bind (r.amendModel _ (fun _ => rfl) fun _ => rfl) fun _ =>
        r.bind (r.checkMembers _ fun m hm => h.child hkind ?_) fun _ => r.finishIf _ _
  simp [hm]

section

variable (hreport : ∀ message arguments place, r.Keeps (Checking.report message arguments place))
  (hset : ∀ model base, r.Keeps (setBase model base))

include hreport hset

/-- A model copies another. -/
theorem copyHeritage (model source : TypeId) (place : NodeId) (finish withBase : Bool) :
    r.Keeps (copyHeritage model source place finish withBase) := by
  refine r.bind (r.admitHeritage hreport _ _ _ _) fun admitted => ?_
  split
  · exact r.pure _
  · refine r.getTypes_bind fun types => ?_
    split
    · exact r.pure _
    · refine r.bind (r.copyInto _ _ _ _ _) fun _ => ?_
      split
      · exact r.bind (hset _ _) fun _ => r.pure _
      · exact r.pure _

/-- Models are built in the same way if it does not matter what they extend. -/
theorem buildModel (type : TypeId) {parts : ModelNode}
    (hkind : tree.kind? node = some (.modelStatement parts)) (h : r.Serves check check' node) :
    r.holds (buildModel check node parts type) (buildModel check' node parts type) := by
  refine r.bind ?_ fun _ => r.fillModel type hkind h fun finish withBase => ?_
  · cases hext : parts.base with
    | none => exact r.pure _
    | some place =>
      exact r.bind (h.operand hkind (by simp [operands, hext])) fun _ =>
        r.bind (r.admitHeritage hreport _ _ _ _) fun _ => hset _ _
  · cases his : parts.copied with
    | none => exact r.pure _
    | some place =>
      exact r.bind (h.operand hkind (by simp [operands, his])) fun _ =>
        r.look rfl rfl fun _ => r.bind (r.copyHeritage hreport hset _ _ _ _ _) fun _ =>
          r.bind (r.noteReading _) fun _ => r.pure _

end

/-! ### Operations, interfaces and enums -/

/-- An operation is built from its parameters and its result. -/
theorem buildOperation (interface : Option TypeId)
    (hkind : tree.kind? node = some (.operationStatement parts)) (h : r.Serves check check' node) :
    r.holds (buildOperation check node parts interface)
      (buildOperation check' node parts interface) := by
  refine r.look rfl rfl fun s => r.bind (h.operand hkind (by simp [operands])) fun _ => ?_
  refine r.bind (h.operand hkind (by simp [operands])) fun _ => ?_
  refine r.bind (r.checkDecorators h.decorators) fun _ =>
    r.bind (r.addOther _ nofun) fun type => r.shouldFinish_bind _ fun finish => ?_
  have hrec : r.Keeps (recordOperation node parts.name type) :=
    r.record_bind (r.declare _ _ hkind (by simp) (by simp) fun _ => rfl)
      fun _ => r.look rfl rfl fun _ => r.addToNamespace _ fun _ => rfl
  split
  · refine r.bind (r.finishType _) fun _ => ?_
    split
    · exact r.bind hrec fun _ => r.pure _
    · exact r.pure _
  · exact r.pure _

/-- The operations of an interface are built in turn. -/
theorem checkOwnOperations (interface : TypeId) (h : ∀ m ∈ operations, r.Serves check check' m)
    (seen : List String) (known : OrderedMap String TypeId) :
    r.holds (checkOwnOperations check interface operations seen known)
      (checkOwnOperations check' interface operations seen known) := by
  induction operations generalizing seen known with
  | nil => exact r.pure _
  | cons m rest ih =>
    have hrest := ih fun m hm => h m (.tail _ hm)
    refine r.getTree_bind ?_
    split
    next parts hkind =>
      split
      · exact r.bind (r.report _ _ (by simp)) fun _ => hrest _ _
      · have hbuild := r.buildOperation (some interface) hkind (h m (.head _))
        exact r.bind hbuild fun _ => hrest _ _
    · exact hrest _ _

/-- An interface takes the operations of its mixins and its own. -/
theorem buildInterface (type : TypeId) {parts : InterfaceNode}
    (hkind : tree.kind? node = some (.interfaceStatement parts)) (h : r.Serves check check' node) :
    r.holds (buildInterface check node parts type) (buildInterface check' node parts type) := by
  have hmixin : ∀ finish, ∀ mixin ∈ parts.mixins, ∀ operations,
      r.holds (checkMixin check type finish operations mixin)
        (checkMixin check' type finish operations mixin) := by
    intro finish mixin hmem operations
    refine r.bind (h.operand hkind hmem) fun _ => r.getTypes_bind fun types => ?_
    split
    · split
      · exact r.reported (by simp)
      · exact r.pure _
    · exact r.foldlM (fun _ _ _ => r.mixOperation _ _ _ _ _) _
  refine r.shouldFinish_bind _ fun finish => r.bind (r.foldlM (hmixin finish) _) fun _ =>
    r.bind (r.checkDecorators h.decorators) fun _ => r.bind (r.amendInterface _ fun _ => rfl) fun _ =>
      r.bind (r.checkOwnOperations _ (fun m hm => h.child hkind ?_) _ _) fun _ =>
        r.bind (r.amendInterface _ fun _ => rfl) fun _ => r.finishIf _ _
  simp [hm]

/-- The members of an enum are checked in turn. -/
theorem checkEnumMembers (type : TypeId) (h : ∀ m ∈ members, r.Serves check check' m)
    (seen : List String) :
    r.holds (checkEnumMembers check type members seen)
      (checkEnumMembers check' type members seen) := by
  induction members generalizing seen with
  | nil => exact r.pure _
  | cons m rest ih =>
    have hrest := ih fun m hm => h m (.tail _ hm)
    have hm := h m (.head _)
    refine r.getTree_bind ?_
    split
    next parts hkind =>
      split
      · exact r.bind (r.report _ _ (by simp)) fun _ => hrest _
      · have hvalue : r.holds (checkEnumValue check parts.value)
            (checkEnumValue check' parts.value) := by
          cases hliteral : parts.value with
          | none => exact r.pure _
          | some value =>
            exact r.bind (hm.operand hkind (by simp [operands, hliteral])) fun _ =>
              r.getTypes_bind fun _ => r.pure _
        have hmember : r.holds (checkEnumMember check type m parts)
            (checkEnumMember check' type m parts) :=
          r.bind hvalue fun _ => r.bind (r.checkDecorators hm.decorators) fun _ =>
            r.bind (r.addOther _ nofun) fun _ => r.bind (r.finishType _) fun _ =>
              r.pure _
        exact r.bind hmember fun _ => r.bind (hrest _) fun _ => r.pure _
    · exact hrest _

/-- The members of an enum are filled in, and it is listed. -/
theorem fillEnum (type : TypeId) (parent : Option TypeId) {parts : EnumNode}
    (h : ∀ m ∈ parts.members, r.Serves check check' m) :
    let fill (check : Check) : CheckM TypeId := do
      let members ← Checking.checkEnumMembers check type parts.members []
      modify fun s => s.modifyTypes fun types => types.modifyEnum type fun e => { e with members }
      Checking.finishType type
      Checking.addToNamespace parent fun contents =>
        { contents with enums := contents.enums.insertIfNew parts.name type }
      return type
    r.holds (fill check) (fill check') :=
  r.bind (r.checkEnumMembers _ h _) fun _ =>
    r.bind (r.amend _ _ (fun _ => heritage?_modifyShape (fun shape _ => by cases shape <;> simp) type)
      fun shape => by cases shape <;> rfl) fun _ =>
      r.bind (r.finishType _) fun _ => r.bind (r.addToNamespace _ fun _ => rfl) fun _ => r.pure _

/-! ### Expressions -/

/-- A union is built from its options. -/
theorem checkUnion (hkind : tree.kind? node = some (.unionExpression options))
    (h : r.Serves check check' node) :
    r.holds (checkUnion check node options) (checkUnion check' node options) :=
  r.bind (r.mapM fun _ hc => r.bind (h.operand hkind hc) fun _ => r.getTypes_bind fun _ => r.pure _)
    fun _ => r.addOther _ nofun

/-- An array is built from its element. -/
theorem checkArray {element : NodeId} (hkind : tree.kind? node = some (.arrayExpression element))
    (h : r.Serves check check' node) :
    r.holds (checkArray check node element) (checkArray check' node element) :=
  r.bind (h.operand hkind (.head _)) fun _ => r.addOther _ nofun

/-- A tuple is built from its values. -/
theorem checkTuple (hkind : tree.kind? node = some (.tupleExpression values))
    (h : r.Serves check check' node) :
    r.holds (checkTuple check node values) (checkTuple check' node values) :=
  r.bind (r.mapM fun _ hc => h.operand hkind hc) fun _ => r.addOther _ nofun

/-- An intersection is built from its operands. -/
theorem checkIntersection (hkind : tree.kind? node = some (.intersectionExpression operands))
    (h : r.Serves check check' node) :
    r.holds (checkIntersection check node operands) (checkIntersection check' node operands) := by
  refine r.bind (r.mapM fun _ hc => h.operand hkind hc) fun types =>
    r.shouldFinish_bind _ fun finish => r.bind (r.intersectOperands _ _ _) fun properties => ?_
  split
  · exact r.pure _
  · refine r.addType _ _ (not_stated hkind nofun) ?_
    rintro _ ⟨⟩
    rfl

end Rules

/-- The relation holds of the checks of all nodes. -/
def Rules.Covers (r : Rules tree) (check check' : Check) : Prop :=
  ∀ node, r.holds (check node) (check' node)

/-- What holds of all checks holds of those that a node calls for. -/
theorem Rules.Covers.serves {r : Rules tree} (h : r.Covers check check') (node : NodeId) :
    r.Serves check check' node :=
  fun c _ => h c

/-- A change of the marks for the template, the aliases and the namespaces that are being looked
into. -/
structure Detour (g : State → State) : Prop where
  only (s : State) : g s = { s with
    context := (g s).context
    openAliases := (g s).openAliases
    parameterTypes := (g s).parameterTypes
    checkedNamespaces := (g s).checkedNamespaces }
  core (s : State) : (g s).core = g s.core

/-- A relation that is also passed on where a check enters declarations other than those of
models. -/
structure DeclarationRules (tree : Tree) extends Rules tree where
  detour {g : State → State} : Detour g → toBasicRules.Keeps (modify g)
  instantiated {declaration : NodeId} (symbol : SymbolId) (arguments : List TypeId) (type : TypeId) :
    tree.templateParameters declaration ≠ [] →
    toBasicRules.Keeps (modify fun s => s.addInstance symbol arguments type)
  pend {node : NodeId} {parts : InterfaceNode} (key : List TypeId) (type : TypeId) :
    tree.kind? node = some (.interfaceStatement parts) →
    toBasicRules.Keeps (modify fun s => { s with pending := s.pending.insert (node, key) type })
  unpend {node : NodeId} {parts : InterfaceNode} (key : List TypeId) :
    tree.kind? node = some (.interfaceStatement parts) →
    toBasicRules.Keeps (modify fun s => { s with pending := s.pending.erase (node, key) })

namespace DeclarationRules

variable (r : DeclarationRules tree)

/-! ### Templates -/

/-- A declaration is entered and left. -/
theorem withContext (context : Option Instantiation) {m m' : CheckM α} (hm : r.holds m m') :
    r.holds (withContext context m) (withContext context m') :=
  r.look rfl rfl fun _ => r.bind (r.detour ⟨fun _ => rfl, fun _ => rfl⟩) fun _ =>
    r.bind hm fun _ => r.bind (r.detour ⟨fun _ => rfl, fun _ => rfl⟩) fun _ => r.pure _

/-- A parameter stands for its argument or gets a type. -/
theorem checkTemplateParameter (parameter : NodeId) :
    r.Keeps (checkTemplateParameter parameter) := by
  refine r.look rfl rfl fun s => r.getTree_bind ?_
  split
  · exact r.pure _
  · refine r.look rfl rfl fun s => ?_
    split
    · exact r.pure _
    · exact r.bind (r.addOther _ nofun) fun _ =>
        r.bind (r.detour ⟨fun _ => rfl, fun _ => rfl⟩) fun _ => r.pure _

/-- A template is known by its arguments or by its parameters. -/
theorem templateKey (declaration : NodeId) :
    r.Keeps (templateKey declaration) := by
  have hparams := r.mapM fun parameter (_ : parameter ∈ tree.templateParameters declaration) =>
    r.checkTemplateParameter parameter
  refine r.look rfl rfl fun s => ?_
  split
  · split
    · exact r.pure _
    · exact r.getTree_bind hparams
  · exact r.getTree_bind hparams

/-- Missing arguments are filled in and others left out. -/
theorem fitArguments (node : NodeId) (count : Nat) (arguments : List TypeId) :
    r.Keeps (fitArguments node count arguments) := by
  rw [Checking.fitArguments]
  split
  · exact r.reported (by simp)
  · split
    · exact r.reported (by simp)
    · exact r.pure _

/-- A model or an interface is looked up, or entered, built and recorded. -/
theorem construct {parameters : List NodeId}
    {stub : Option TypeId → List TypeId → Option NodeId → TypeShape}
    {build build' : TypeId → CheckM Unit} {list : TypeId → NamespaceType → NamespaceType}
    (hadd : ∀ parent arguments template,
      r.Keeps (addType (some node) (stub parent arguments template)))
    (hpend : ∀ key type, r.Keeps
      (modify fun s => { s with pending := s.pending.insert (node, key) type }))
    (hbuild : ∀ type, r.holds (build type) (build' type))
    (hdeclare : ∀ key type, r.Keeps (modify fun s =>
      s.declare (s.bindings.symbolOf? node) type type (!parameters.isEmpty) key))
    (hlist : ∀ t n, (list t n).parentNamespace = n.parentNamespace)
    (hunpend : ∀ key, r.Keeps (modify fun s => { s with pending := s.pending.erase (node, key) })) :
    r.holds (construct node parameters stub build list)
      (construct node parameters stub build' list) := by
  refine r.look rfl rfl fun s => ?_
  split
  · exact r.pure _
  · refine r.look rfl rfl fun s => r.bind (r.templateKey _) fun key => r.look rfl rfl fun s => ?_
    split
    · exact r.pure _
    · refine r.look rfl rfl fun _ => r.bind (hadd _ _ _) fun type => r.bind (hpend _ _) fun _ =>
        r.bind (hbuild type) fun _ => ?_
      split
      · exact r.record_bind (hdeclare _ _) fun _ => r.look rfl rfl fun _ =>
          r.bind (r.addToNamespace _ (hlist _)) fun _ => r.bind (hunpend _) fun _ => r.pure _
      · exact r.bind (hunpend _) fun _ => r.pure _

section

variable (h : r.Covers check check')

include h

/-- A declared type is looked up or checked. -/
theorem checkDeclaredType (symbol : SymbolId) (declaration : NodeId) :
    r.holds (checkDeclaredType check symbol declaration)
      (checkDeclaredType check' symbol declaration) := by
  refine r.look rfl rfl fun s => ?_
  split
  · exact r.pure _
  · exact r.withContext _ (h _)

/-- A template is instantiated once for its arguments. -/
theorem instantiate (symbol : SymbolId) {declaration : NodeId} (arguments : List TypeId)
    (hparams : tree.templateParameters declaration ≠ []) :
    r.holds (instantiate check symbol declaration arguments)
      (instantiate check' symbol declaration arguments) := by
  refine r.look rfl rfl fun s => ?_
  split
  · exact r.pure _
  · refine r.look rfl rfl fun s => ?_
    split
    · exact r.pure _
    · exact r.bind (r.withContext _ (h _)) fun _ =>
        r.bind (r.instantiated _ _ _ hparams) fun _ => r.pure _

/-! ### References -/

/-- What a reference without arguments means. -/
theorem checkReferent (symbol : SymbolId) (kind : SymbolKind) (declaration : NodeId) :
    r.holds (checkReferent check symbol kind declaration)
      (checkReferent check' symbol kind declaration) := by
  unfold Checking.checkReferent
  split
  · exact r.checkTemplateParameter _
  · refine r.look rfl rfl fun s => ?_
    split
    · exact r.pure _
    · exact h _
  · exact r.checkDeclaredType h _ _

/-- What a reference to a declaration means. -/
theorem checkDeclaredReference (node : NodeId) (symbol : SymbolId) (kind : SymbolKind)
    (declaration : NodeId) (given : List TypeId) :
    r.holds (checkDeclaredReference check node symbol kind declaration given)
      (checkDeclaredReference check' node symbol kind declaration given) := by
  refine r.getTree_bind ?_
  split
  next htempl =>
    simp only [Bool.and_eq_true, Bool.not_eq_true', List.isEmpty_eq_false_iff] at htempl
    exact r.bind (r.discard (r.checkDeclaredType h _ _)) fun _ => r.getTree_bind
      (r.bind (r.fitArguments _ _ _) fun _ => r.bind (r.instantiate h _ _ htempl.2) fun _ =>
        r.bind (r.noteReference _) fun _ => r.pure _)
  · refine r.bind (r.checkReferent h _ _ _) fun _ => r.bind (r.noteReference _) fun _ => ?_
    split
    · exact r.reported (by simp)
    · exact r.pure _

/-- What a reference means. -/
theorem checkTypeReference (node target : NodeId) (arguments : List NodeId) :
    r.holds (checkTypeReference check node target arguments)
      (checkTypeReference check' node target arguments) := by
  refine r.bind (r.resolveReference _ _) fun found => ?_
  split
  · exact r.pure _
  · refine r.look rfl rfl fun s => ?_
    split
    · exact r.pure _
    · split
      · exact r.reported (by simp)
      · split
        · exact r.internalError _
        · exact r.bind (r.mapM fun _ _ => h _) fun _ => r.checkDeclaredReference h _ _ _ _ _

/-! ### Declarations -/

/-- A property is looked up in its model. -/
theorem checkPropertyNode {parts : PropertyNode}
    (hkind : tree.kind? node = some (.modelProperty parts)) :
    r.holds (checkPropertyNode check node parts) (checkPropertyNode check' node parts) := by
  refine r.getTree_bind ?_
  split
  · refine r.bind (h _) fun _ => r.getTypes_bind fun types => ?_
    split
    · exact r.pure _
    · exact r.checkProperty hkind (h.serves node)
  · exact r.checkProperty hkind (h.serves node)

/-- An operation is looked up or built. -/
theorem checkOperation (interface : Option TypeId)
    (hkind : tree.kind? node = some (.operationStatement parts)) :
    r.holds (checkOperation check node parts interface)
      (checkOperation check' node parts interface) := by
  unfold Checking.checkOperation
  split
  · exact r.buildOperation _ hkind (h.serves node)
  · refine r.look rfl rfl fun s => ?_
    split
    · exact r.pure _
    · exact r.buildOperation _ hkind (h.serves node)

/-- An operation is looked up in its interface. -/
theorem checkOperationNode (hkind : tree.kind? node = some (.operationStatement parts)) :
    r.holds (checkOperationNode check node parts) (checkOperationNode check' node parts) := by
  refine r.getTree_bind ?_
  split
  · refine r.bind (h _) fun _ => r.getTypes_bind fun types => ?_
    dsimp only
    split
    · exact r.pure _
    · exact r.checkOperation h _ hkind
  · exact r.checkOperation h _ hkind

/-- An interface is looked up or constructed. -/
theorem checkInterface {parts : InterfaceNode}
    (hkind : tree.kind? node = some (.interfaceStatement parts)) :
    r.holds (checkInterface check node parts) (checkInterface check' node parts) :=
  r.construct (fun _ _ _ => r.addOther _ nofun) (fun _ _ => r.pend _ _ hkind)
    (fun _ => r.buildInterface _ hkind (h.serves node))
    (fun _ _ => r.declare _ _ hkind (by simp) (by simp) fun _ => rfl) (fun _ _ => rfl)
    fun _ => r.unpend _ hkind

/-- An enum is looked up, or opened and filled. -/
theorem checkEnum {parts : EnumNode} (hkind : tree.kind? node = some (.enumStatement parts)) :
    r.holds (checkEnum check node parts) (checkEnum check' node parts) := by
  refine r.look rfl rfl fun s => ?_
  split
  · exact r.pure _
  · exact r.look rfl rfl fun _ => r.bind (r.checkDecorators fun d _ => h.serves d) fun _ =>
      r.bind (r.addOther _ nofun) fun type =>
        r.record_bind (r.declare _ _ hkind (by simp) (by simp) fun _ => rfl)
          fun _ => r.fillEnum _ _ fun m _ => h.serves m

/-- A member is looked up in its enum. -/
theorem checkEnumMemberNode (node : NodeId) :
    r.holds (checkEnumMemberNode check node) (checkEnumMemberNode check' node) := by
  refine r.getTree_bind ?_
  split
  · exact r.pure _
  · exact r.bind (h _) fun _ => r.getTypes_bind fun _ => r.pure _

/-- The statements of a namespace are checked. -/
theorem checkNamespace (node : NodeId) (parts : NamespaceNode) :
    r.holds (checkNamespace check node parts) (checkNamespace check' node parts) := by
  refine r.look rfl rfl fun s => r.look rfl rfl fun s' => ?_
  split
  · exact r.internalError _
  · refine r.look rfl rfl fun s => ?_
    split
    · exact r.pure _
    · exact r.bind (r.detour ⟨fun _ => rfl, fun _ => rfl⟩) fun _ =>
        r.bind (r.checkDecorators fun d _ => h.serves d) fun _ =>
          r.bind (r.amendNamespace _ fun _ => rfl) fun _ =>
            r.bind (r.runDecorators _ _) fun _ =>
              r.bind (r.forM fun _ _ => r.discard (h _)) fun _ => r.pure _

/-- An alias means what its value means. -/
theorem checkAlias {parts : AliasNode} (hkind : tree.kind? node = some (.aliasStatement parts)) :
    r.holds (checkAlias check node parts) (checkAlias check' node parts) := by
  refine r.look rfl rfl fun s => ?_
  split
  · exact r.pure _
  · refine r.look rfl rfl fun s => r.bind (r.templateKey _) fun key => r.look rfl rfl fun s => ?_
    split
    · exact r.reported (by simp)
    · refine r.bind (r.detour ⟨fun _ => rfl, fun _ => rfl⟩) fun _ => r.bind (h _) fun type =>
        r.bind (r.detour ⟨fun _ => rfl, fun _ => rfl⟩) fun _ => ?_
      split
      · have hrec : ∀ symbol known, checkAlias.recordAlias parts symbol known type key =
            modify fun s : State =>
              s.declare symbol known type (!parts.templateParameters.isEmpty) key :=
          fun _ _ => eq_of_runs fun env s u s' => by rw [recordAlias_eq, run_modify]
        simp only [hrec, get_modify]
        exact r.bind (r.declare type key hkind (by simp)
          (by simp) fun _ => rfl) fun _ => r.pure _
      · exact r.pure _

/-- The relation holds of every check if it holds of those that it calls for, and of the check of a
model statement. -/
theorem checkStep (hmodel : ∀ parts, tree.kind? node = some (.modelStatement parts) →
      r.holds (checkModel check node parts) (checkModel check' node parts)) :
    r.holds (checkStep check node) (checkStep check' node) := by
  refine r.getTree_bind ?_
  split
  · exact hmodel _ ‹_›
  · exact r.checkModelExpression ‹_› (h.serves node)
  · exact r.checkPropertyNode h ‹_›
  · exact r.checkNamespace h _ _
  · exact r.checkOperationNode h ‹_›
  · exact r.checkInterface h ‹_›
  · exact r.checkEnum h ‹_›
  · exact r.checkEnumMemberNode h _
  · exact r.checkAlias h ‹_›
  · exact r.checkIntrinsic ‹_›
  · exact r.checkTemplateParameter _
  · exact r.checkTypeReference h _ _ _
  · exact r.checkUnion ‹_› (h.serves node)
  · exact r.checkIntersection ‹_› (h.serves node)
  · exact r.checkArray ‹_› (h.serves node)
  · exact r.checkTuple ‹_› (h.serves node)
  · exact r.checkLiteral _ _
  · exact r.checkLiteral _ _
  · exact r.checkLiteral _ _
  · exact r.pure _

end

end DeclarationRules

/-- A relation that is also passed on where a check enters the declarations of models. -/
structure ModelRules (tree : Tree) extends DeclarationRules tree where
  addModel {m : ModelType} (place : Option NodeId) : m.base = none →
    toBasicRules.Keeps (Checking.addType place (.model m))
  declareModel {node : NodeId} {parts : ModelNode} {isTemplate : Bool} (type : TypeId)
    (key : List TypeId) : tree.kind? node = some (.modelStatement parts) →
    (isTemplate = true → parts.templateParameters ≠ []) → toBasicRules.Keeps
      (modify fun s => s.declare (s.bindings.symbolOf? node) type type isTemplate key)
  pendModel (node : NodeId) (key : List TypeId) (type : TypeId) : toBasicRules.Keeps
    (modify fun s => { s with pending := s.pending.insert (node, key) type })
  unpendModel (node : NodeId) (key : List TypeId) : toBasicRules.Keeps
    (modify fun s => { s with pending := s.pending.erase (node, key) })

/-- The relation holds of every check if it holds of those that it calls for, and of the
construction of models. -/
theorem ModelRules.checkStep (r : ModelRules tree) (h : r.Covers check check')
    (hbuild : ∀ parts, tree.kind? node = some (.modelStatement parts) → ∀ type,
      r.holds (buildModel check node parts type) (buildModel check' node parts type)) :
    r.holds (checkStep check node) (checkStep check' node) := by
  refine r.toDeclarationRules.checkStep h fun parts hkind => ?_
  exact r.construct (fun _ _ _ => r.addModel _ rfl) (fun _ _ => r.pendModel _ _ _)
    (fun type => r.whileBuilding _ (hbuild parts hkind type))
    (fun _ _ => r.declareModel _ _ hkind (by simp)) (fun _ _ => rfl) fun _ => r.unpendModel _ _

end Checking

end ApiSchema
