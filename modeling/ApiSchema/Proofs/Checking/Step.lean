import ApiSchema.Proofs.Checking.Frame
import ApiSchema.Proofs.Checking.Resolution

/-!
# The steps of a check

However a node is checked, its computation is made of a few kinds of steps: it reports, has other
nodes checked, follows references, looks at types that it has got hold of, adds types made of such
types to the table and runs their decorators if they are complete, and adds parts to the one type
that it has under construction. A `Step` is one of these, and `Work` is any number of them. Each
comes with the types known before and after it: those that the computation can build into other
types.

All nodes that a computation deals with are in the same template, so that a template parameter means
the same to all of them.
-/

namespace ApiSchema

open Option List TypeShape

variable {symbol : Symbol} {tree : Tree} {declaration : NodeId} {source : TypeId}
  {o : OperationType} {id : SymbolId}

/-- Whether a node is an operation of an interface. -/
def Tree.isMember (tree : Tree) (node : NodeId) : Bool :=
  match (tree.parent? node).bind tree.kind? with
  | some (.interfaceStatement _) => true
  | _ => false

/-- Whether what is built from a node is listed in a namespace. -/
def Tree.isListed (tree : Tree) (node : NodeId) : Bool :=
  match tree.kind? node with
  | some (.modelStatement _) | some (.interfaceStatement _) | some (.enumStatement _) => true
  | some (.operationStatement _) =>
    (tree.templateDeclarationOf? node).isNone && !tree.isMember node
  | _ => false

/-- Whether it is remembered that a node has been checked: for a namespace its contents, and else
the type that was found. -/
def Tree.isRemembered (tree : Tree) (node : NodeId) : Bool :=
  match tree.kind? node with
  | some (.namespaceStatement _) | some (.aliasStatement _) => true
  | _ => tree.isListed node

/-- What is not remembered is not listed. -/
theorem Tree.isListed_of_isRemembered (h : tree.isRemembered node = false) :
    tree.isListed node = false := by
  rw [isRemembered] at h
  split at h <;> simp_all

/-- A row is not that of a declaration that is listed in a namespace. -/
def TypeRecord.Incidental (row : TypeRecord) (tree : Tree) : Prop :=
  row.shape.isDeclared = true → ∀ n, row.node = some n → tree.isListed n = false

/-- What is not declared is incidental. -/
theorem TypeRecord.Incidental.of_isDeclared {row : TypeRecord} (h : row.shape.isDeclared = false) :
    row.Incidental tree := by
  intro hdecl
  simp [h] at hdecl

namespace TypeTable

/-- The types of decorators that are added to a type are known, or are mentioned elsewhere. -/
def Attaches (types : TypeTable) (known : List TypeId) (decorators : List DecoratorApplication) :
    Prop :=
  ∀ id ∈ decoratorTypes decorators, id ∈ known ∨ types.Stores id

/-- The operations of an interface are known, belong to it, and stand under their names. -/
def Equips (types : TypeTable) (known : List TypeId) (interface : TypeId)
    (operations : OrderedMap String TypeId) : Prop :=
  ∀ entry ∈ operations.entries, entry.2 ∈ known ∧ ∃ o, types.operation? entry.2 = some o ∧
    o.name = entry.1 ∧ o.interface = some interface

/-- The operations of an interface are known. -/
theorem Equips.values_subset {types : TypeTable} {known : List TypeId} {interface : TypeId}
    {operations : OrderedMap String TypeId} (h : types.Equips known interface operations) :
    operations.values ⊆ known := by
  intro id hid
  obtain ⟨entry, hentry, rfl⟩ := mem_map.mp hid
  exact (h entry hentry).1

end TypeTable

namespace TypeShape

/-- The types that are complete as soon as they are added to the table. -/
def isPlain : TypeShape → Bool
  | .property _ | .operation _ | .enumMember _ | .union _ | .array _ | .tuple _ => true
  | _ => false

attribute [simp] isPlain.eq_1 isPlain.eq_2 isPlain.eq_3 isPlain.eq_4 isPlain.eq_5 isPlain.eq_6
  isPlain.eq_7

/-- The types that have no decorators and do not stand in other types. -/
def isBare : TypeShape → Bool
  | .array _ | .tuple _ => true
  | _ => false

/-- What a type under construction becomes when a part is added to it that is made of known
types. -/
inductive Amended (types : TypeTable) (known : List TypeId) (own : TypeId) :
    TypeShape → TypeShape → Prop
  | same (shape : TypeShape) : Amended types known own shape shape
  | property {m : ModelType} {id : TypeId} {p : PropertyType} : id ∈ known →
    types.property? id = some p → m.properties.find? p.name = none →
    Amended types known own (.model m)
      (.model { m with properties := m.properties.insert p.name id })
  | base {m : ModelType} {base : Option TypeId} : m.base = none → (∀ id ∈ base, id ∈ known) →
    Amended types known own (.model m) (.model { m with base })
  | modelDecorators {m : ModelType} {decorators : List DecoratorApplication} :
    types.Attaches known decorators →
    Amended types known own (.model m) (.model { m with decorators })
  | interfaceDecorators {i : InterfaceType} {decorators : List DecoratorApplication} :
    types.Attaches known decorators →
    Amended types known own (.interfaceType i) (.interfaceType { i with decorators })
  | operations {i : InterfaceType} {operations : OrderedMap String TypeId} :
    i.operations = .empty → types.Equips known own operations →
    Amended types known own (.interfaceType i) (.interfaceType { i with operations })
  | members {e : EnumType} {members : List TypeId} : e.members = [] → members ⊆ known →
    Amended types known own (.enumType e) (.enumType { e with members })

variable {types : TypeTable} {known : List TypeId} {own : TypeId} {shape shape' : TypeShape}

/-- A type that is amended grows. -/
theorem Amended.grown (h : Amended types known own shape shape') : shape.Grown shape' := by
  cases h with
  | same => exact .same _
  | property _ _ hnew => exact .model (.insert _ hnew)
  | base hnone hknown => exact .model ⟨rfl, id, fun hbase => by simp [hnone] at hbase⟩
  | modelDecorators => exact .model ⟨rfl, id, id⟩
  | interfaceDecorators => exact .interface rfl (List.Subset.refl _)
  | operations hempty =>
    refine .interface rfl ?_
    rw [hempty]
    exact nil_subset _
  | members hempty =>
    refine .enum rfl ?_
    rw [hempty]
    exact nil_subset _

/-- What a part adds to the links of a type is known. -/
theorem Amended.links (h : Amended types known own shape shape') :
    ∀ id ∈ shape'.links, id ∈ shape.links ∨ id ∈ known := by
  cases h with
  | same => exact fun id hid => .inl hid
  | @property m new p hnew =>
    intro id hid
    simp only [links, mem_append] at hid ⊢
    rcases hid with (hid | hid) | hid
    · rcases OrderedMap.mem_values_insert hid with rfl | hid
      · exact .inr hnew
      · exact .inl (.inl (.inl hid))
    · exact .inl (.inl (.inr hid))
    · exact .inl (.inr hid)
  | base hnone hknown =>
    intro id hid
    simp only [links, mem_append, mem_toList] at hid ⊢
    rcases hid with (hid | hid) | hid
    · exact .inl (.inl (.inl hid))
    · exact .inr (hknown id hid)
    · exact .inl (.inr hid)
  | modelDecorators => exact fun id hid => .inl hid
  | interfaceDecorators => exact fun id hid => .inl hid
  | operations hempty hknown =>
    intro id hid
    simp only [links, mem_append] at hid ⊢
    rcases hid with hid | hid
    · exact .inr (hknown.values_subset hid)
    · exact .inl (.inr hid)
  | members hempty hknown => exact fun id hid => .inr (hknown hid)

end TypeShape

namespace Checking

variable {env : Environment} {check : Check} {template : Option NodeId}
  {own defaultValue interface : Option TypeId} {floor : Nat} {s s' : State}
  {known known' : List TypeId} {node : NodeId}

/-- A state of a computation, and the types that the computation has got hold of. -/
structure Moment where
  state : State
  known : List TypeId

/-- A node in the given template refers to a declared symbol. -/
structure Refers (env : Environment) (s : State) (template : Option NodeId) (node : NodeId)
    (id : SymbolId) (symbol : Symbol) (declaration : NodeId) : Prop where
  inside : env.tree.templateDeclarationOf? node = template
  visible : s.Visible env.tree node id
  found : s.bindings.symbol? id = some symbol
  declared : symbol.node? = some declaration

/-- A reference leads to a node of the kind of its symbol. -/
theorem Refers.kind (h : Refers env s template node id symbol declaration)
    (hcons : Bindings.Consistent env.tree s.bindings) :
    ∃ kind, env.tree.kind? declaration = some kind ∧ kind.symbolKind? = some symbol.kind :=
  hcons.kind (profile?_eq_some_iff.mpr ⟨symbol, h.found, rfl, rfl⟩)
    (Symbol.mem_declarations h.declared)

/-- The properties of an intersection are known and stand under their names. -/
def Named (types : TypeTable) (known : List TypeId) (properties : OrderedMap String TypeId) :
    Prop :=
  ∀ entry ∈ properties.entries, entry.2 ∈ known ∧
    ∃ p, types.property? entry.2 = some p ∧ p.name = entry.1

/-- A type that a computation can mention in what it builds: one that it knows, one that is
mentioned elsewhere, or a namespace. -/
def State.Supplies (s : State) (known : List TypeId) (id : TypeId) : Prop :=
  id ∈ known ∨ s.types.Stores id ∨ ∃ symbol, (s.linksOf symbol).namespaceType = some id

/-- What a row that is added is made of. The parts of a copy are those of its source, the parameters
of an operation form a model, and the members of an enum are built with it. Unions are looked at
elsewhere. -/
structure Founded (s : State) (known : List TypeId) (own : Option TypeId) (row : TypeRecord) :
    Prop where
  surroundings : ∀ id ∈ row.shape.surroundings, s.Supplies known id
  decorators : s.types.Attaches known row.shape.decorators
  source {p : PropertyType} {source : TypeId} : row.shape = .property p → p.source = some source →
    ∃ original, s.types.get? source = some ⟨row.node, .property original⟩ ∧
      p = { original with source := some source }
  parameters {o : OperationType} : row.shape = .operation o →
    (∃ m, s.types.shape? o.parameters = some (.model m)) ∨
    ∃ other original, s.types.operation? other = some original ∧ original.parameters = o.parameters
  member {m : EnumMemberType} : row.shape = .enumMember m → own = some m.enumType
  joined {options : List TypeId} : row.shape ≠ .union options := by simp

/-- A bare type is founded on its parts alone. -/
theorem Founded.of_isBare {node : Option NodeId} {shape : TypeShape} (h : shape.isBare = true) :
    Founded s known own ⟨node, shape⟩ := by
  cases shape <;> simp [TypeShape.isBare] at h <;>
    exact ⟨by simp [TypeShape.surroundings],
      by simp [TypeTable.Attaches, decoratorTypes, TypeShape.decorators],
      by simp, by simp, by simp, by simp⟩

/-- A copy of a property. -/
theorem Founded.copy {p : PropertyType} (hp : s.types.property? source = some p) :
    Founded s known own ⟨s.types.node? source, .property { p with source := some source }⟩ := by
  have hshape := TypeTable.property?_eq_some_iff.mp hp
  obtain ⟨⟨node, _⟩, hrow, rfl⟩ := map_eq_some_iff.mp hshape
  have hnode : s.types.node? source = node := by simp [TypeTable.node?, hrow]
  refine ⟨by simp [TypeShape.surroundings], fun id hid => .inr ⟨source, _, hshape, ?_⟩, ?_,
    by simp, by simp, by simp⟩
  · exact mem_append_right _ hid
  · intro q other hq hsource
    cases hq
    cases hsource
    exact ⟨p, by rw [hrow, hnode], rfl⟩

/-- A property that is declared. -/
theorem Founded.declared {node : Option NodeId} {name : String} {type : TypeId} {optional : Bool}
    {decorators : List DecoratorApplication} (hdecs : decoratorTypes decorators ⊆ known) :
    Founded s known own ⟨node, .property ⟨name, type, optional, defaultValue, none, decorators⟩⟩ where
  surroundings := by simp [TypeShape.surroundings]
  decorators id hid := Or.inl (hdecs hid)
  source hq hsource := by
    cases hq
    simp at hsource
  parameters := by simp
  member := by simp

/-- The namespace of a declaration can be mentioned. -/
theorem State.supplies_of_parent {id : TypeId}
    (h : s.parentNamespaceType? node = some id) : s.Supplies known id := by
  obtain ⟨symbol, -, htype⟩ := bind_eq_some_iff.mp h
  exact .inr (.inr ⟨_, htype⟩)

/-- An operation that is declared. -/
theorem Founded.operation {node : Option NodeId}
    (hpar : ∀ id ∈ o.parentNamespace, s.Supplies known id)
    (hdecs : decoratorTypes o.decorators ⊆ known)
    (hparams : ∃ m, s.types.shape? o.parameters = some (.model m)) :
    Founded s known own ⟨node, .operation o⟩ where
  surroundings id hid := hpar id (mem_toList.mp hid)
  decorators id hid := Or.inl (hdecs hid)
  source := by simp
  parameters ho := Or.inl (operation.inj ho ▸ hparams)
  member := by simp

/-- A copy of an operation. -/
theorem Founded.copyOperation {node : Option NodeId} (ho : s.types.operation? source = some o) :
    Founded s known own ⟨node, .operation { o with interface }⟩ := by
  have hshape := TypeTable.operation?_eq_some_iff.mp ho
  refine ⟨fun id hid => .inr (.inl ⟨source, _, hshape, ?_⟩),
    fun id hid => .inr ⟨source, _, hshape, mem_append_right _ hid⟩, by simp,
    fun hcopy => .inr ⟨source, o, ho, ?_⟩, by simp, by simp⟩
  · exact mem_append_left _ (mem_append_right _ hid)
  · rw [← operation.inj hcopy]

/-- A member of the enum that is being built. -/
theorem Founded.enumMember {node : Option NodeId} {m : EnumMemberType} (hown : own = some m.enumType)
    (henum : m.enumType ∈ known) (hdecs : decoratorTypes m.decorators ⊆ known) :
    Founded s known own ⟨node, .enumMember m⟩ where
  surroundings id hid := Or.inl (mem_singleton.mp hid ▸ henum)
  decorators id hid := Or.inl (hdecs hid)
  source := by simp
  parameters := by simp
  member hm := enumMember.inj hm ▸ hown

/-- The types built in a template are complete: there is no template, or an instance of it is being
checked, and no argument of the instance was open when this was looked into. At that moment there
were at least `floor` types. -/
def Ready (floor : Nat) (template : Option NodeId) (s : State) : Prop :=
  ∀ declaration, template = some declaration → ∃ (arguments : List TypeId) (types : TypeTable),
    s.context = some ⟨declaration, arguments⟩ ∧ floor ≤ types.size ∧ types.Grows s.types ∧
      ∀ a ∈ arguments, types.isOpen a = false

/-- Outside templates all types are complete. -/
theorem Ready.outside (h : template = none) : Ready floor template s := by
  intro declaration hdecn
  simp [h] at hdecn

/-- A computation that began when there were `floor` types, and that runs decorators on what it
builds if `finish` is set. -/
structure Underway (floor : Nat) (template : Option NodeId) (finish : Bool) (s : State) : Prop where
  floor_le : floor ≤ s.types.size
  ready : finish = true → Ready floor template s

/-- A computation stays under way. -/
theorem Underway.frame {finish : Bool} (h : Underway floor template finish s)
    (hframe : Frame own s s') : Underway floor template finish s' := by
  refine ⟨Nat.le_trans h.floor_le hframe.grows.size_le, fun hfinish declaration hdecn => ?_⟩
  obtain ⟨arguments, types, hctx, hfloor, hgrows, hopen⟩ := h.ready hfinish declaration hdecn
  exact ⟨arguments, types, hframe.context.trans hctx, hfloor, hgrows.trans hframe.grows, hopen⟩

/-- Whether decorators are run is decided by looking at the arguments of the instance. -/
theorem Underway.judge (hnode : env.tree.templateDeclarationOf? node = template)
    (hfloor : floor ≤ s.types.size) :
    Underway floor template (s.shouldFinish env.tree node) s := by
  refine ⟨hfloor, fun hfinish declaration hdecn => ?_⟩
  rw [State.shouldFinish, hnode, hdecn] at hfinish
  obtain ⟨⟨_, arguments⟩, hctx, hclosed⟩ := (any_eq_true _ _).mp hfinish
  simp only [Bool.and_eq_true, decide_eq_true_eq, Bool.not_eq_true', List.any_eq_false,
    Bool.not_eq_true] at hclosed
  obtain ⟨rfl, hclosed⟩ := hclosed
  exact ⟨arguments, s.types, hctx, hfloor, .refl _, hclosed⟩

/-- What is noted as read was read for the names that are inherited, or it is what the check of its
place answered, as it was then. -/
def Reading.AnsweredBy (env : Environment) (check : Check) (own : Option TypeId) (s : State)
    (r : Reading) : Prop :=
  r.use = .inherited ∨ ∃ s₀ s₁, check r.place env s₀ = some (r.source, s₁) ∧
    r = s₁.reading r.reader r.place r.use r.source ∧ Frame own s₁ s

/-- One step of a computation in a template that may have a type of its own under construction. -/
inductive Step (env : Environment) (check : Check) (template : Option NodeId)
    (own : Option TypeId) (floor : Nat) : Moment → Moment → Prop
  | quiet {s s' : State} {known : List TypeId} : Quiet s s' →
    Step env check template own floor ⟨s, known⟩ ⟨s', known⟩
  | raise {s : State} {known : List TypeId} {id : SymbolId} {symbol : Symbol} :
    s.bindings.symbol? id = some symbol → symbol.isDecorator = false → symbol.node? = none →
    Step env check template own floor ⟨s, known⟩ ⟨s.raise (.undeclaredSymbol id.label), known⟩
  | error (s : State) (known : List TypeId) :
    Step env check template own floor ⟨s, known⟩ ⟨s, TypeTable.errorType :: known⟩
  | look {s : State} {known : List TypeId} {id other : TypeId} : id ∈ known →
    s.types.Refers id other → Step env check template own floor ⟨s, known⟩ ⟨s, other :: known⟩
  | call {s s' : State} {known : List TypeId} {n : NodeId} {t : TypeId} :
    env.tree.templateDeclarationOf? n = template → check n env s = some (t, s') →
    Step env check template own floor ⟨s, known⟩ ⟨s', t :: known⟩
  | refer {s s' : State} {known given : List TypeId} {node declaration : NodeId} {id : SymbolId}
    {symbol : Symbol} {t : TypeId} : Refers env s template node id symbol declaration →
    given ⊆ known →
    checkDeclaredReference check node id symbol.kind declaration given env s = some (t, s') →
    Step env check template own floor ⟨s, known⟩ ⟨s', t :: known⟩
  | push {s s' : State} {known : List TypeId} {shape : TypeShape} {finish : Bool}
    (node : Option NodeId) : shape.isPlain = true →
    (⟨node, shape⟩ : TypeRecord).Incidental env.tree → shape.links ⊆ known →
    Founded s known own ⟨node, shape⟩ →
    Finished finish s.types.nextId (s.addRow ⟨node, shape⟩) s' →
    (finish = true → Ready floor template (s.addRow ⟨node, shape⟩)) →
    Step env check template own floor ⟨s, known⟩ ⟨s', s.types.nextId :: known⟩
  | assemble {s : State} {known : List TypeId} {node : NodeId} {operands : List NodeId}
    {properties : OrderedMap String TypeId} :
    env.tree.kind? node = some (.intersectionExpression operands) →
    Named s.types known properties →
    Step env check template own floor ⟨s, known⟩
      ⟨s.addRow ⟨some node, .model { ModelType.anonymous with properties }⟩,
        s.types.nextId :: known⟩
  | amend {s : State} {known : List TypeId} {id : TypeId} {f : TypeShape → TypeShape} :
    own = some id →
    (∀ {shape}, s.types.shape? id = some shape → shape.Amended s.types known id (f shape)) →
    Step env check template own floor ⟨s, known⟩
      ⟨s.modifyTypes fun types => types.modifyShape id f, known⟩
  | note {s : State} {known : List TypeId} {reading : Reading} : own = some reading.reader →
    reading.AnsweredBy env check own s →
    Step env check template own floor ⟨s, known⟩
      ⟨{ s with readings := reading :: s.readings }, known⟩

/-- Any number of steps. -/
def Work (env : Environment) (check : Check) (template : Option NodeId) (own : Option TypeId)
    (floor : Nat) : Moment → Moment → Prop :=
  Relation.ReflTransGen (Step env check template own floor)

/-- Every step leaves alone what a check has to leave alone. -/
theorem Step.frame (hcheck : Framed env check) {m m' : Moment}
    (h : Step env check template own floor m m') : Frame own m.state m'.state := by
  cases h with
  | quiet h => exact .ofQuiet h
  | raise => exact .raise _
  | error | look => exact .refl _ _
  | call _ h => exact (hcheck.frame h).mono own
  | refer _ _ h => exact (checkDeclaredReference_frame hcheck h).mono own
  | @push _ _ _ shape _ _ hplain _ _ _ hfin =>
    exact Frame.trans (.addRow (by cases shape <;> simp_all)) (.ofFinished hfin)
  | assemble => exact .addRow (by simp)
  | amend hown h =>
    subst hown
    exact .modifyOwn fun hshape => (h hshape).grown
  | @note s _ reading hown =>
    exact { Frame.refl own s with readings := ⟨[reading], rfl, fun r hr => .inl
      (by rw [mem_singleton.mp hr]; exact hown)⟩ }

namespace Work

variable {m m' m'' : Moment}

/-- No step is work. -/
theorem refl (m : Moment) : Work env check template own floor m m := Relation.ReflTransGen.refl

/-- One step is work. -/
theorem single (h : Step env check template own floor m m') :
    Work env check template own floor m m' :=
  Relation.ReflTransGen.single h

/-- More work is work. -/
theorem trans (h : Work env check template own floor m m')
    (h' : Work env check template own floor m' m'') : Work env check template own floor m m'' :=
  Relation.ReflTransGen.trans h h'

/-- What every step preserves all work preserves. -/
theorem preserves {P : Moment → Prop} (hstep : ∀ {m m'}, Step env check template own floor m m' →
    P m → P m') (h : Work env check template own floor m m') (hm : P m) : P m' := by
  induction h with
  | refl => exact hm
  | tail _ hlast ih => exact hstep hlast ih

/-- Work leaves alone what each step does. -/
theorem frame (hcheck : Framed env check) (h : Work env check template own floor m m') :
    Frame own m.state m'.state :=
  h.preserves (P := fun n => Frame own m.state n.state)
    (fun hstep hm => hm.trans (hstep.frame hcheck)) (.refl _ _)

/-- What is known stays known. -/
theorem known_subset (h : Work env check template own floor m m') : m.known ⊆ m'.known :=
  h.preserves (P := fun n => m.known ⊆ n.known)
    (fun hstep hm => List.Subset.trans hm (by
      cases hstep <;> first | exact List.Subset.refl _ | exact subset_cons_self _ _))
    (List.Subset.refl _)

end Work

end Checking

end ApiSchema
