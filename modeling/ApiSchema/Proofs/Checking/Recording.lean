import ApiSchema.Proofs.Checking.Declarations

/-!
# Recording declarations

The type of a declaration is recorded with its symbol and is listed by name in its namespace. A
namespace lists models, operations, interfaces and enums apart from each other, and keeps the first

open State
type that is entered under a name.
-/

namespace ApiSchema

/-- The kinds of declarations that a namespace lists. -/
inductive Listing where
  | model
  | operation
  | interface
  | enum
  deriving DecidableEq

namespace NamespaceType

/-- What a namespace lists of a kind. -/
def listed (n : NamespaceType) : Listing → OrderedMap String TypeId
  | .model => n.models
  | .operation => n.operations
  | .interface => n.interfaces
  | .enum => n.enums

/-- Lists a type in a namespace, unless the name is taken. -/
def enlist (listing : Listing) (name : String) (t : TypeId) (n : NamespaceType) : NamespaceType :=
  match listing with
  | .model => { n with models := n.models.insertIfNew name t }
  | .operation => { n with operations := n.operations.insertIfNew name t }
  | .interface => { n with interfaces := n.interfaces.insertIfNew name t }
  | .enum => { n with enums := n.enums.insertIfNew name t }

theorem listed_enlist (n : NamespaceType) (listing other : Listing) (name : String) (t : TypeId) :
    (n.enlist listing name t).listed other =
      if other = listing then (n.listed other).insertIfNew name t else n.listed other := by
  cases listing <;> cases other <;> rfl

theorem extends_enlist (listing : Listing) (name : String) (t : TypeId) (n : NamespaceType) :
    n.Extends (n.enlist listing name t) := by
  have hadded : ∀ m : OrderedMap String TypeId, m.entries <+: (m.insertIfNew name t).entries :=
    fun m => m.entries_prefix_insertIfNew name t
  cases listing with
  | model => exact { Extends.refl n with models := hadded _ }
  | operation => exact { Extends.refl n with operations := hadded _ }
  | interface => exact { Extends.refl n with interfaces := hadded _ }
  | enum => exact { Extends.refl n with enums := hadded _ }

end NamespaceType

/-- What a statement is listed as, and its name. -/
def NodeKind.listing? : NodeKind → Option (Listing × String)
  | .modelStatement parts => some (.model, parts.name)
  | .operationStatement parts => some (.operation, parts.name)
  | .interfaceStatement parts => some (.interface, parts.name)
  | .enumStatement parts => some (.enum, parts.name)
  | _ => none

/-- Whether a node of a kind is the statement of a model or an interface. -/
def NodeKind.isInstantiable : NodeKind → Bool
  | .modelStatement _ | .interfaceStatement _ => true
  | _ => false

namespace Checking

variable {env : Environment} {node : NodeId} {s s' : State} {t : TypeId} {own : Option TypeId}

/-! ### Symbols -/

/-- Records the type of a declaration and, for a template, an instance. -/
def State.declare (s : State) (symbol : Option SymbolId) (known type : TypeId) (isTemplate : Bool)
    (key : List TypeId) : State :=
  match symbol with
  | none => s
  | some symbol => s.modifyLinks symbol fun links =>
      { links with
        declaredType := known
        instances := if isTemplate then links.instances.insert key type else links.instances }

theorem run_recordDeclared {symbol : Option SymbolId} {type : TypeId} {isTemplate : Bool}
    {key : List TypeId} {u : Unit} :
    recordDeclared symbol type isTemplate key env s = some (u, s') ↔
      s' = s.declare symbol type type isTemplate key := by
  cases symbol with
  | none => exact run_pure.trans (and_iff_right rfl)
  | some symbol => exact run_modify

theorem State.declare_eq (s : State) (symbol : Option SymbolId) (known type : TypeId)
    (isTemplate : Bool) (key : List TypeId) :
    s.declare symbol known type isTemplate key =
      { s with links := (s.declare symbol known type isTemplate key).links } := by
  cases symbol <;> rfl

theorem State.types_declare (s : State) (symbol : Option SymbolId) (known type : TypeId)
    (isTemplate : Bool) (key : List TypeId) :
    (s.declare symbol known type isTemplate key).types = s.types := by
  cases symbol <;> rfl

theorem declare_frame (symbol : Option SymbolId) (known type : TypeId) (isTemplate : Bool)
    (key : List TypeId) : Frame own s (s.declare symbol known type isTemplate key) := by
  cases symbol with
  | none => exact .refl _ _
  | some symbol =>
    rw [State.declare]
    exact .modifyLinks (fun _ => rfl) fun _ _ _ => ⟨_, rfl⟩

theorem State.declaredType?_declare (s : State) (symbol : SymbolId) (known type : TypeId)
    (isTemplate : Bool) (key : List TypeId) :
    (s.declare (some symbol) known type isTemplate key).declaredType? symbol = some known := by
  rw [declaredType?, declare, linksOf_modifyLinks, if_pos rfl]

/-! ### Namespaces -/

/-- Between the states a namespace may have been filled. -/
def Filled (s s' : State) : Prop :=
  s' = s ∨ ∃ id f, (∀ n : NamespaceType, n.Extends (f n)) ∧
    s' = s.modifyTypes fun types => types.modifyNamespace id f

theorem Filled.frame (h : Filled s s') : Frame own s s' := by
  obtain rfl | ⟨id, f, hf, rfl⟩ := h
  · exact .refl _ _
  · exact .modifyNamespace _ hf

/-- The state after a declared type is listed in the namespace of its declaration. -/
def State.enlist (s : State) (tree : Tree) (node : NodeId) (t : TypeId) : State :=
  match s.parentNamespaceType? node, (tree.kind? node).bind NodeKind.listing? with
  | some parent, some (listing, name) =>
    s.modifyTypes fun types => types.modifyNamespace parent (.enlist listing name t)
  | _, _ => s

theorem State.enlist_filled (s : State) (tree : Tree) (node : NodeId) (t : TypeId) :
    Filled s (s.enlist tree node t) := by
  rw [enlist]
  split
  · exact .inr ⟨_, _, NamespaceType.extends_enlist _ _ _, rfl⟩
  · exact .inl rfl

theorem State.enlist_eq (s : State) (tree : Tree) (node : NodeId) (t : TypeId) :
    s.enlist tree node t = { s with types := (s.enlist tree node t).types } := by
  obtain heq | ⟨id, f, -, heq⟩ := s.enlist_filled tree node t
  · rw [heq]
  · rw [heq]
    rfl

theorem run_addToNamespace {kind : NodeKind} {listing : Listing} {name : String}
    {parent : Option TypeId} {u : Unit} (hkind : env.tree.kind? node = some kind)
    (hlisting : kind.listing? = some (listing, name))
    (hpar : s.parentNamespaceType? node = parent)
    (h : addToNamespace parent (.enlist listing name t) env s = some (u, s')) :
    s' = s.enlist env.tree node t := by
  subst hpar
  rw [State.enlist, hkind, Option.bind_some, hlisting]
  cases hpar : s.parentNamespaceType? node with
  | none =>
    rw [hpar] at h
    exact (run_pure.mp h).2
  | some id =>
    rw [hpar] at h
    exact run_modify.mp h

/-- It makes no difference whether a type is first listed or first recorded. -/
theorem State.enlist_declare (s : State) (tree : Tree) (node : NodeId) (symbol : Option SymbolId)
    (t known type : TypeId) (isTemplate : Bool) (key : List TypeId) :
    (s.declare symbol known type isTemplate key).enlist tree node t =
      (s.enlist tree node t).declare symbol known type isTemplate key := by
  have hpar : (s.declare symbol known type isTemplate key).parentNamespaceType? node =
      s.parentNamespaceType? node :=
    (declare_frame symbol known type isTemplate key : Frame none s _).parentNamespaceType node
  rw [enlist, enlist, hpar]
  cases symbol <;> split <;> rfl

end Checking

end ApiSchema
