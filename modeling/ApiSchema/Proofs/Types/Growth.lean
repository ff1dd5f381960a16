import ApiSchema.Types.Table
import Mathlib.Logic.Relation

/-!
# Growing type tables

Types refer to each other by identifier, and a type reaches all those it refers to, those that they
refer to, and so on. While a program is checked the type table only grows: rows are added, models,
interfaces and enums under construction get more parts, and namespaces get more contents. So what a
type reaches once it reaches ever after.
-/

namespace ApiSchema

open OrderedMap Table Option TypeShape

variable {id other : TypeId}

/-! ### What types refer to -/

/-- The types that a type refers to. Namespaces refer to nothing, and references to them are left
out. -/
def TypeShape.links : TypeShape → List TypeId
  | .model m => m.properties.values ++ m.base.toList ++ m.templateArguments
  | .property p => p.type :: (p.defaultValue.toList ++ p.source.toList)
  | .operation o => o.parameters :: o.returns :: o.interface.toList
  | .enumType e => e.members
  | .interfaceType i => i.operations.values ++ i.templateArguments
  | .union options => options
  | .array element => [element]
  | .tuple values => values
  | .namespaceType _ | .enumMember _ | .templateParameter | .string _ | .number _ | .boolean _
  | .intrinsic _ => []

/-- The type that an argument of a decorator is. -/
def DecoratorArgument.type? : DecoratorArgument → Option TypeId
  | .type id => some id
  | _ => none

/-- The types among the arguments of decorators. -/
def decoratorTypes (decorators : List DecoratorApplication) : List TypeId :=
  decorators.flatMap fun application => application.arguments.filterMap DecoratorArgument.type?

/-- The types that a type is listed in, and those that a namespace lists. -/
def TypeShape.surroundings : TypeShape → List TypeId
  | .model m => m.parentNamespace.toList
  | .operation o => o.parentNamespace.toList
  | .enumType e => e.parentNamespace.toList
  | .interfaceType i => i.parentNamespace.toList
  | .enumMember m => [m.enumType]
  | .namespaceType n => n.parentNamespace.toList ++ n.models.values ++ n.operations.values ++
    n.namespaces.values ++ n.interfaces.values ++ n.enums.values
  | .property _ | .union _ | .array _ | .tuple _ | .templateParameter | .string _ | .number _
  | .boolean _ | .intrinsic _ => []

/-- The namespace that a type stands in. -/
def TypeShape.parentNamespace? : TypeShape → Option TypeId
  | .model m => m.parentNamespace
  | .operation o => o.parentNamespace
  | .enumType e => e.parentNamespace
  | .interfaceType i => i.parentNamespace
  | .namespaceType n => n.parentNamespace
  | _ => none

/-- The types that the name of a type is made of. -/
def TypeShape.nameParts : TypeShape → List TypeId
  | .model m => m.templateArguments ++ m.parentNamespace.toList
  | .interfaceType i => i.templateArguments ++ i.parentNamespace.toList
  | .operation o => o.interface.toList ++ o.parentNamespace.toList
  | .enumType e => e.parentNamespace.toList
  | .namespaceType n => n.parentNamespace.toList
  | .enumMember m => [m.enumType]
  | .union options => options
  | .array element => [element]
  | .tuple values => values
  | .property _ | .templateParameter | .string _ | .number _ | .boolean _ | .intrinsic _ => []

/-- All types that are mentioned in a type. -/
def TypeShape.stored (shape : TypeShape) : List TypeId :=
  shape.links ++ shape.surroundings ++ decoratorTypes shape.decorators

/-- What a name is made of is mentioned in the type. -/
theorem TypeShape.nameParts_subset_stored (shape : TypeShape) : shape.nameParts ⊆ shape.stored := by
  intro id hid
  cases shape <;> grind [nameParts, stored, links, surroundings]

/-- The template arguments of a model or an interface, and its declaration if that has template
parameters. -/
def TypeShape.origin? : TypeShape → Option (List TypeId × Option NodeId)
  | .model m => some (m.templateArguments, m.templateNode)
  | .interfaceType i => some (i.templateArguments, i.templateNode)
  | _ => none

attribute [simp] TypeShape.origin?.eq_1 TypeShape.origin?.eq_2 TypeShape.origin?.eq_3

/-- A type refers to its template arguments. -/
theorem TypeShape.arguments_subset_links {shape : TypeShape} {arguments : List TypeId}
    {node : Option NodeId} (h : shape.origin? = some (arguments, node)) :
    arguments ⊆ shape.links := by
  intro id hid
  cases shape <;> grind [origin?, links]

/-- Whether a type is what a declaration stands for by itself: no instance of a template and no
operation of an interface. -/
def TypeShape.isDeclared : TypeShape → Bool
  | .model m => m.templateArguments.isEmpty
  | .interfaceType i => i.templateArguments.isEmpty
  | .operation o => o.interface.isNone
  | .enumType _ => true
  | _ => false

/-- Whether a type is a namespace. -/
def TypeShape.isNamespace : TypeShape → Bool
  | .namespaceType _ => true
  | _ => false

attribute [simp] TypeShape.isNamespace.eq_1 TypeShape.isNamespace.eq_2

namespace TypeTable

variable {types types' types'' : TypeTable}

/-- One type refers to another. -/
def Refers (types : TypeTable) (id other : TypeId) : Prop :=
  ∃ shape, types.shape? id = some shape ∧ other ∈ shape.links

instance (types : TypeTable) (id other : TypeId) : Decidable (types.Refers id other) :=
  decidable_of_iff ((types.shape? id).any fun shape => decide (other ∈ shape.links)) <| by
    simp [Refers, any_eq_true]

/-- A type is mentioned in some type. -/
def Stores (types : TypeTable) (id : TypeId) : Prop :=
  ∃ other shape, types.shape? other = some shape ∧ id ∈ shape.stored

/-- A type refers to another over any number of others. -/
def Reaches (types : TypeTable) : TypeId → TypeId → Prop := Relation.ReflTransGen types.Refers

/-- An identifier has a row. -/
def Has (types : TypeTable) (id : TypeId) : Prop := ∃ row, types.get? id = some row

/-- The identifiers with a row are those below the size of the table. -/
theorem has_iff : types.Has id ↔ id.index < types.size := by
  have hnone : types.get? id = none ↔ types.size ≤ id.index := get?_eq_none_iff
  rw [Has, ← ne_none_iff_exists', Ne, hnone, Nat.not_le]

/-- An identifier with a shape has a row. -/
theorem has_of_shape {shape : TypeShape} (h : types.shape? id = some shape) :
    types.Has id := by
  obtain ⟨row, hrow, -⟩ := map_eq_some_iff.mp h
  exact ⟨row, hrow⟩

/-- The next identifier has no row yet. -/
theorem not_has_nextId : ¬ types.Has types.nextId := by
  rintro ⟨row, hrow⟩
  simp at hrow

/-- A new row leaves those that are there alone. -/
theorem get?_push_of_has {row : TypeRecord} (h : types.Has id) :
    get? (types.push row) id = types.get? id :=
  (get?_push types row id).trans (if_neg (Nat.ne_of_lt (has_iff.mp h)))

/-- The new row has the next identifier. -/
theorem shape?_push (row : TypeRecord) (id : TypeId) : shape? (types.push row) id =
    if id = types.nextId then some row.shape else types.shape? id := by
  rw [shape?, shape?, get?_push]
  simp only [eq_nextId_iff]
  split <;> rfl

/-- A shape in an extended table is that of the new row or of an old one. -/
theorem shape?_push_cases {row : TypeRecord} {shape : TypeShape}
    (h : shape? (types.push row) id = some shape) :
    id = types.nextId ∧ shape = row.shape ∨ types.shape? id = some shape := by
  obtain ⟨found, hfound, rfl⟩ := map_eq_some_iff.mp h
  exact (get?_push_cases hfound).imp (And.imp_right (congrArg _))
    fun hold => map_eq_some_iff.mpr ⟨found, hold, rfl⟩

/-- The shape at the next identifier is that of the new row. -/
theorem shape?_push_nextId (row : TypeRecord) :
    shape? (types.push row) types.nextId = some row.shape := by
  simp [shape?]

/-- A row has a new shape if it is the one that is changed. -/
theorem get?_modifyShape (f : TypeShape → TypeShape) (id other : TypeId) :
    (types.modifyShape id f).get? other =
      if other = id then (types.get? other).map fun row => { row with shape := f row.shape }
      else types.get? other :=
  get?_modify types id other _

/-- Only the shape that is changed is another one. -/
theorem shape?_modifyShape (f : TypeShape → TypeShape) (id other : TypeId) :
    (types.modifyShape id f).shape? other =
      if other = id then (types.shape? other).map f else types.shape? other := by
  rw [shape?, get?_modifyShape, shape?]
  split
  · cases types.get? other <;> rfl
  · rfl

/-- A shape after a change is one from before, changed if it is the one in question. -/
theorem shape?_modifyShape_cases {f : TypeShape → TypeShape} {other : TypeId} {shape : TypeShape}
    (h : (types.modifyShape id f).shape? other = some shape) :
    ∃ old, types.shape? other = some old ∧ (shape = old ∨ other = id ∧ shape = f old) := by
  rw [shape?_modifyShape] at h
  split at h
  next heq =>
    obtain ⟨old, hold, rfl⟩ := map_eq_some_iff.mp h
    exact ⟨old, hold, .inr ⟨heq, rfl⟩⟩
  · exact ⟨shape, h, .inl rfl⟩

/-- A model is a shape of that kind. -/
theorem model?_eq_some_iff {m : ModelType} :
    types.model? id = some m ↔ types.shape? id = some (.model m) := by
  rw [model?]
  split <;> simp_all

/-- A property is a shape of that kind. -/
theorem property?_eq_some_iff {p : PropertyType} :
    types.property? id = some p ↔ types.shape? id = some (.property p) := by
  rw [property?]
  split <;> simp_all

/-- An interface is a shape of that kind. -/
theorem interface?_eq_some_iff {i : InterfaceType} :
    types.interface? id = some i ↔ types.shape? id = some (.interfaceType i) := by
  rw [interface?]
  split <;> simp_all

/-- An operation is a shape of that kind. -/
theorem operation?_eq_some_iff {o : OperationType} :
    types.operation? id = some o ↔ types.shape? id = some (.operation o) := by
  rw [operation?]
  split <;> simp_all

/-- An enum is a shape of that kind. -/
theorem enum?_eq_some_iff {e : EnumType} :
    types.enum? id = some e ↔ types.shape? id = some (.enumType e) := by
  rw [enum?]
  split <;> simp_all

/-- A union is a shape of that kind. -/
theorem union?_eq_some_iff {options : List TypeId} :
    types.union? id = some options ↔ types.shape? id = some (.union options) := by
  rw [union?]
  split <;> simp_all

/-- Only the model that is changed is another one. -/
theorem model?_modifyModel (f : ModelType → ModelType) (id other : TypeId) :
    (types.modifyModel id f).model? other =
      if other = id then (types.model? other).map f else types.model? other := by
  by_cases h : other = id
  · rw [if_pos h, model?, model?, modifyModel, shape?_modifyShape, if_pos h]
    cases types.shape? other with
    | none => rfl
    | some shape => cases shape <;> rfl
  · rw [if_neg h, model?, model?, modifyModel, shape?_modifyShape, if_neg h]

end TypeTable

/-! ### Growth -/

/-- What a model can become while it is under construction. -/
structure ModelType.Grown (m m' : ModelType) : Prop where
  eq : m' = { m with properties := m'.properties, base := m'.base, decorators := m'.decorators }
  properties {name : String} {id : TypeId} : m.properties.find? name = some id →
    m'.properties.find? name = some id
  base {id : TypeId} : m.base = some id → m'.base = some id

namespace ModelType.Grown

variable {m m' m'' : ModelType}

theorem trans (h : m.Grown m') (h' : m'.Grown m'') : m.Grown m'' :=
  ⟨by rw [h'.eq, h.eq], h'.properties ∘ h.properties, h'.base ∘ h.base⟩

/-- A model grows by a property of a new name. -/
theorem insert {name : String} (id : TypeId) (hnew : m.properties.find? name = none) :
    m.Grown { m with properties := m.properties.insert name id } := by
  refine ⟨rfl, fun {other _} hfind => ?_, fun hbase => hbase⟩
  have hne : other ≠ name := fun heq => by simp [← heq, hfind] at hnew
  rwa [find?_insert, if_neg hne]

/-- A model keeps its template arguments. -/
theorem templateArguments (h : m.Grown m') : m'.templateArguments = m.templateArguments := by
  rw [h.eq]

/-- A model keeps its properties. -/
theorem entries_subset (h : m.Grown m') : m.properties.entries ⊆ m'.properties.entries :=
  fun _ hentry => find?_eq_some_iff.mp (h.properties (find?_eq_some_iff.mpr hentry))

theorem keys_subset (h : m.Grown m') : m.properties.keys ⊆ m'.properties.keys :=
  List.map_subset _ h.entries_subset

end ModelType.Grown

/-- A namespace has its name and its parent, and all that it had before what is new. -/
structure NamespaceType.Extends (n n' : NamespaceType) : Prop where
  name : n'.name = n.name
  parentNamespace : n'.parentNamespace = n.parentNamespace
  models : n.models.entries <+: n'.models.entries
  operations : n.operations.entries <+: n'.operations.entries
  namespaces : n.namespaces.entries <+: n'.namespaces.entries
  interfaces : n.interfaces.entries <+: n'.interfaces.entries
  enums : n.enums.entries <+: n'.enums.entries
  decorators : n.decorators <+: n'.decorators

namespace NamespaceType.Extends

variable {n n' n'' : NamespaceType}

theorem refl (n : NamespaceType) : n.Extends n :=
  ⟨rfl, rfl, List.prefix_rfl, List.prefix_rfl, List.prefix_rfl, List.prefix_rfl, List.prefix_rfl,
    List.prefix_rfl⟩

theorem trans (h : n.Extends n') (h' : n'.Extends n'') : n.Extends n'' :=
  ⟨h'.name.trans h.name, h'.parentNamespace.trans h.parentNamespace, h.models.trans h'.models,
    h.operations.trans h'.operations, h.namespaces.trans h'.namespaces,
    h.interfaces.trans h'.interfaces, h.enums.trans h'.enums, h.decorators.trans h'.decorators⟩

/-- A namespace may get decorators. -/
theorem decorate (n : NamespaceType) (more : List DecoratorApplication) :
    n.Extends { n with decorators := n.decorators ++ more } :=
  { refl n with decorators := List.prefix_append _ _ }

/-- A namespace may get another one inside it. -/
theorem addNamespace (n : NamespaceType) (name : String) (t : TypeId) :
    n.Extends { n with namespaces := n.namespaces.insertIfNew name t } :=
  { refl n with namespaces := n.namespaces.entries_prefix_insertIfNew name t }

end NamespaceType.Extends

/-- What a type can become while it is under construction. Namespaces are open all the time. -/
inductive TypeShape.Grown : TypeShape → TypeShape → Prop
  | same (shape : TypeShape) : Grown shape shape
  | model {m m' : ModelType} : m.Grown m' → Grown (.model m) (.model m')
  | interface {i i' : InterfaceType} :
    i' = { i with operations := i'.operations, decorators := i'.decorators } →
    i.operations.values ⊆ i'.operations.values → Grown (.interfaceType i) (.interfaceType i')
  | enum {e e' : EnumType} : e' = { e with members := e'.members, decorators := e'.decorators } →
    e.members ⊆ e'.members → Grown (.enumType e) (.enumType e')
  | contents {n n' : NamespaceType} : n.Extends n' → Grown (.namespaceType n) (.namespaceType n')

namespace TypeShape.Grown

variable {shape shape' shape'' : TypeShape}

/-- Namespaces stay namespaces, and nothing else becomes one. -/
theorem isNamespace_eq (h : Grown shape shape') : shape'.isNamespace = shape.isNamespace := by
  cases h <;> rfl

theorem trans (h : Grown shape shape') (h' : Grown shape' shape'') : Grown shape shape'' := by
  cases h with
  | same => exact h'
  | model h =>
    cases h' with
    | same => exact .model h
    | model h' => exact .model (h.trans h')
  | interface heq h =>
    cases h' with
    | same => exact .interface heq h
    | interface heq' h' => exact .interface (by rw [heq', heq]) (List.Subset.trans h h')
  | enum heq h =>
    cases h' with
    | same => exact .enum heq h
    | enum heq' h' => exact .enum (by rw [heq', heq]) (List.Subset.trans h h')
  | contents h =>
    cases h' with
    | same => exact .contents h
    | contents h' => exact .contents (h.trans h')

/-- Only a namespace is filled. -/
theorem fill {f : NamespaceType → NamespaceType} (h : ∀ n : NamespaceType, n.Extends (f n))
    (shape : TypeShape) :
    shape.Grown (match shape with
      | .namespaceType n => .namespaceType (f n)
      | shape => shape) := by
  cases shape with
  | namespaceType n => exact .contents (h n)
  | _ => exact .same _

/-- A type refers to all that it referred to. -/
theorem links_subset (h : Grown shape shape') : shape.links ⊆ shape'.links := by
  cases h with
  | same => exact List.Subset.refl _
  | @model m m' h =>
    have hbase : m.base.toList ⊆ m'.base.toList := fun id hid => by
      simpa using h.base (by simpa using hid)
    rw [links, links, h.templateArguments]
    exact List.append_subset.mpr ⟨List.subset_append_of_subset_left _
      (List.append_subset.mpr ⟨List.subset_append_of_subset_left _ (List.map_subset _ h.entries_subset),
        List.subset_append_of_subset_right _ hbase⟩), List.subset_append_right _ _⟩
  | @interface i i' heq h =>
    have hargs : i'.templateArguments = i.templateArguments := by rw [heq]
    rw [links, links, hargs]
    exact List.append_subset.mpr ⟨List.subset_append_of_subset_left _ h,
      List.subset_append_right _ _⟩
  | enum _ h => exact h
  | contents => exact List.Subset.refl _

/-- A type keeps its template arguments and its template. -/
theorem origin (h : Grown shape shape') : shape'.origin? = shape.origin? := by
  cases h with
  | model h => rw [origin?, origin?, h.eq]
  | interface heq _ => rw [origin?, origin?, heq]
  | _ => rfl

/-- A type keeps its name while it is built. -/
theorem nameParts (h : Grown shape shape') : shape'.nameParts = shape.nameParts := by
  cases h with
  | same => rfl
  | model h => rw [nameParts, nameParts, h.eq]
  | interface heq _ => rw [nameParts, nameParts, heq]
  | enum heq _ => rw [nameParts, nameParts, heq]
  | contents h => rw [nameParts, nameParts, h.parentNamespace]

end TypeShape.Grown

namespace TypeTable

variable {types types' types'' : TypeTable}

/-- The rows of a table are kept, grown or not. -/
structure Grows (types types' : TypeTable) : Prop where
  row {id : TypeId} {row : TypeRecord} : types.get? id = some row →
    ∃ shape, types'.get? id = some ⟨row.node, shape⟩ ∧ row.shape.Grown shape

namespace Grows

theorem refl (types : TypeTable) : types.Grows types := ⟨fun h => ⟨_, h, .same _⟩⟩

theorem trans (h : types.Grows types') (h' : types'.Grows types'') : types.Grows types'' := by
  refine ⟨fun {id row} hrow => ?_⟩
  obtain ⟨shape, hrow', hgrown⟩ := h.row hrow
  obtain ⟨shape', hrow'', hgrown'⟩ := h'.row hrow'
  exact ⟨shape', hrow'', hgrown.trans hgrown'⟩

/-- A table grows by a row. -/
theorem push (types : TypeTable) (row : TypeRecord) : types.Grows (push types row) :=
  ⟨fun h => ⟨_, (get?_push_of_has ⟨_, h⟩).trans h, .same _⟩⟩

/-- A table grows with one of its shapes. -/
theorem modifyShape {f : TypeShape → TypeShape}
    (h : ∀ {shape}, types.shape? id = some shape → shape.Grown (f shape)) :
    types.Grows (types.modifyShape id f) := by
  refine ⟨fun {other row} hrow => ?_⟩
  rw [get?_modifyShape]
  split
  next heq =>
    subst heq
    exact ⟨f row.shape, by rw [hrow]; rfl, h (by simp [shape?, hrow])⟩
  · exact ⟨row.shape, hrow, .same _⟩

section

variable (h : types.Grows types')

include h

/-- What has a row keeps one. -/
theorem has (hid : types.Has id) : types'.Has id := by
  obtain ⟨row, hrow⟩ := hid
  obtain ⟨shape, hrow', -⟩ := h.row hrow
  exact ⟨_, hrow'⟩

/-- A type keeps its node. -/
theorem node (hid : types.Has id) : types'.node? id = types.node? id := by
  obtain ⟨row, hrow⟩ := hid
  obtain ⟨shape, hrow', -⟩ := h.row hrow
  rw [node?, node?, hrow, hrow']
  rfl

/-- A table that grows gets no smaller. -/
theorem size_le : types.size ≤ types'.size := by
  refine Nat.le_of_not_lt fun hlt => ?_
  have hhas : types.Has (RowId.ofIndex types'.size) := has_iff.mpr hlt
  exact Nat.lt_irrefl _ (has_iff.mp (h.has hhas))

/-- A shape can only grow. -/
theorem shape {shape : TypeShape} (hshape : types.shape? id = some shape) :
    ∃ shape', types'.shape? id = some shape' ∧ shape.Grown shape' := by
  obtain ⟨row, hrow, rfl⟩ := map_eq_some_iff.mp hshape
  obtain ⟨shape', hrow', hgrown⟩ := h.row hrow
  exact ⟨shape', by simp [shape?, hrow'], hgrown⟩

/-- Namespaces stay namespaces. -/
theorem namespaceType {n : NamespaceType} (hn : types.shape? id = some (.namespaceType n)) :
    ∃ n', types'.shape? id = some (.namespaceType n') := by
  obtain ⟨shape, hshape, hgrown⟩ := h.shape hn
  cases hgrown <;> exact ⟨_, hshape⟩

/-- Properties are complete from the start. -/
theorem property {id : TypeId} {p : PropertyType} (hp : types.property? id = some p) :
    types'.property? id = some p := by
  obtain ⟨shape', hshape', hgrown⟩ := h.shape (property?_eq_some_iff.mp hp)
  cases hgrown
  exact property?_eq_some_iff.mpr hshape'

/-- Operations are complete from the start. -/
theorem operation {id : TypeId} {o : OperationType} (ho : types.operation? id = some o) :
    types'.operation? id = some o := by
  obtain ⟨shape', hshape', hgrown⟩ := h.shape (operation?_eq_some_iff.mp ho)
  cases hgrown
  exact operation?_eq_some_iff.mpr hshape'

/-- Models stay models. -/
theorem model {id : TypeId} {m : ModelType} (hm : types.model? id = some m) :
    ∃ m', types'.model? id = some m' ∧ m.Grown m' := by
  obtain ⟨shape', hshape', hgrown⟩ := h.shape (model?_eq_some_iff.mp hm)
  cases hgrown with
  | same => exact ⟨m, model?_eq_some_iff.mpr hshape', rfl, fun h => h, fun h => h⟩
  | @model _ m' hgrown => exact ⟨m', model?_eq_some_iff.mpr hshape', hgrown⟩

/-- Unions are complete from the start, and nothing that is there becomes one. -/
theorem union (hid : types.Has id) : types'.union? id = types.union? id := by
  obtain ⟨⟨_, shape⟩, hrow⟩ := hid
  obtain ⟨shape', hrow', hgrown⟩ := h.row hrow
  simp only [union?, shape?, hrow, hrow', map_some]
  cases hgrown <;> rfl

/-- Nothing that is there becomes a model. -/
theorem model_of_has {m' : ModelType} (hid : types.Has id) (hm' : types'.model? id = some m') :
    ∃ m, types.model? id = some m := by
  obtain ⟨⟨_, shape⟩, hrow⟩ := hid
  obtain ⟨shape', hrow', hgrown⟩ := h.row hrow
  simp only [model?_eq_some_iff, shape?, hrow, hrow', map_some, Option.some.injEq] at hm' ⊢
  subst hm'
  cases hgrown <;> exact ⟨_, rfl⟩

end

end Grows

end TypeTable

end ApiSchema
