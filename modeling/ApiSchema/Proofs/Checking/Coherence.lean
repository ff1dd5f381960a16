import ApiSchema.Proofs.Checking.EnumMembers
import ApiSchema.Proofs.Checking.NamespaceTypes
import ApiSchema.Proofs.Checking.Session

/-!
# Coherent type graphs

Types mention each other by identifier, and many of them are mentioned before they are complete. All
the same a type table is coherent at any time: everything that is mentioned is there, and is what it
is mentioned as. A model has its properties under their names, an interface its own operations, a
namespace what is declared in it; the parameters of an operation form a model, and a copied property
agrees with its source, which is older. A check keeps a state coherent, and the type that it comes
to is there.
-/

namespace ApiSchema

open Option List

variable {shape shape' stub : TypeShape} {name : String} {other type t : TypeId} {n : NamespaceType}
  {symbol : SymbolId} {key arguments marks given members : List TypeId} {declaration : NodeId}
  {kind : SymbolKind} {template : Option NodeId} {floor : Nat} {bound : Bindings} {merged : Bool}
  {f : TypeShape → TypeShape} {row : TypeRecord}

/-- What a namespace lists a type as. The operations of interfaces are not listed. -/
def TypeShape.listing? : TypeShape → Option Listing
  | .model _ => some .model
  | .operation o => if o.interface.isNone then some .operation else none
  | .interfaceType _ => some .interface
  | .enumType _ => some .enum
  | _ => none

/-- Whether a type lists nothing by name, and is no part of a model or an interface. -/
def TypeShape.isElementary : TypeShape → Bool
  | .model _ | .property _ | .namespaceType _ | .operation _ | .interfaceType _ => false
  | _ => true

/-- Whether a type is that of a literal. -/
def TypeShape.isLiteral : TypeShape → Bool
  | .string _ | .number _ | .boolean _ => true
  | _ => false

/-- Literals have different types. -/
theorem Checking.Literal.shape_injective : Function.Injective Literal.shape := by
  rintro (_ | _ | _) (_ | _ | _) <;> simp [shape]

/-- The type of a literal is not built piece by piece. -/
theorem TypeShape.Grown.literal_iff {literal : Checking.Literal} (h : shape.Grown shape') :
    shape' = literal.shape ↔ shape = literal.shape := by
  cases h <;> cases literal <;> simp [Checking.Literal.shape]

/-- A plain type is not that of a literal. -/
theorem TypeShape.isLiteral_of_isPlain (h : shape.isPlain = true) : shape.isLiteral = false := by
  cases shape <;> first | rfl | simp [isPlain] at h

/-- While it is built a type keeps its name and its place. -/
theorem TypeShape.Grown.heading (h : shape.Grown shape') :
    shape'.name? = shape.name? ∧ shape'.parentNamespace? = shape.parentNamespace? ∧
      shape'.listing? = shape.listing? := by
  cases h with
  | same => exact ⟨rfl, rfl, rfl⟩
  | model h => exact ⟨by rw [h.eq]; rfl, by rw [h.eq]; rfl, rfl⟩
  | interface heq => exact ⟨by rw [heq]; rfl, by rw [heq]; rfl, rfl⟩
  | enum heq => exact ⟨by rw [heq]; rfl, by rw [heq]; rfl, rfl⟩
  | contents h => exact ⟨congrArg some h.name, h.parentNamespace, rfl⟩

namespace TypeTable

variable {types types' : TypeTable} {id : TypeId} {row : TypeRecord}

/-- A row fits into a table: the types that it mentions are there, and are what it takes them
for. -/
structure Fits (types : TypeTable) (id : TypeId) (row : TypeRecord) : Prop where
  stored : ∀ other ∈ row.shape.stored, other.index < types.size
  properties {m : ModelType} {name : String} {t : TypeId} : row.shape = .model m →
    m.properties.find? name = some t → ∃ p, types.property? t = some p ∧ p.name = name := by simp
  operations {i : InterfaceType} {name : String} {t : TypeId} : row.shape = .interfaceType i →
    i.operations.find? name = some t →
    ∃ o, types.operation? t = some o ∧ o.name = name ∧ o.interface = some id := by simp
  listed {n : NamespaceType} {listing : Listing} {name : String} {t : TypeId} :
    row.shape = .namespaceType n → (n.listed listing).find? name = some t →
    ∃ shape, types.shape? t = some shape ∧ shape.listing? = some listing ∧
      shape.name? = some name ∧ shape.parentNamespace? = some id := by simp
  namespaces {n : NamespaceType} {name : String} {t : TypeId} :
    row.shape = .namespaceType n → n.namespaces.find? name = some t →
    ∃ inner, types.shape? t = some (.namespaceType inner) ∧ inner.name = name ∧
      inner.parentNamespace = some id := by simp
  parameters {o : OperationType} : row.shape = .operation o →
    ∃ m, types.model? o.parameters = some m := by simp
  source {p : PropertyType} {source : TypeId} : row.shape = .property p → p.source = some source →
    source.index < id.index ∧ ∃ original,
      types.get? source = some ⟨row.node, .property original⟩ ∧
      p = { original with source := some source } := by simp

/-- The name of a type is made of types that are older. -/
def Layered (types : TypeTable) : Prop :=
  ∀ (id : TypeId) (shape : TypeShape), types.shape? id = some shape →
    ∀ part ∈ shape.nameParts, part.index < id.index

/-- No option of a union is a union. -/
def Flat (types : TypeTable) : Prop :=
  ∀ (t : TypeId) (options : List TypeId), types.union? t = some options →
    ∀ o ∈ options, types.Has o ∧ types.union? o = none

/-- Every type of the table fits into it, and has its name from older ones. -/
structure Coherent (types : TypeTable) : Prop where
  fits {id : TypeId} {row : TypeRecord} : types.get? id = some row → types.Fits id row
  layered : types.Layered
  flat : types.Flat

/-- The options that a type contributes to a union. -/
def optionsOf (types : TypeTable) (t : TypeId) : List TypeId := (types.union? t).getD [t]

/-- The options that types contribute are there and are no unions. -/
theorem Flat.optionsOf {ts : List TypeId} (h : types.Flat) (hts : ∀ t ∈ ts, types.Has t) :
    ∀ o ∈ ts.flatMap types.optionsOf, types.Has o ∧ types.union? o = none := by
  intro o ho
  obtain ⟨t, ht, ho⟩ := mem_flatMap.mp ho
  rw [TypeTable.optionsOf] at ho
  cases hunion : types.union? t with
  | none =>
    obtain rfl : o = t := by simpa [hunion] using ho
    exact ⟨hts _ ht, hunion⟩
  | some options => exact h t options hunion o (by simpa [hunion] using ho)

/-- Unions stay flat if those that are new are. -/
theorem Flat.grows (h : types.Flat) (hgrows : types.Grows types')
    (hnew : ∀ {t options}, types'.union? t = some options → types.union? t = some options ∨
      ∀ o ∈ options, types.Has o ∧ types.union? o = none) : types'.Flat := by
  intro t options ht o ho
  obtain ⟨hhas, hnone⟩ := (hnew ht).elim (h t options · o ho) (· o ho)
  exact ⟨hgrows.has hhas, (hgrows.union hhas).trans hnone⟩

/-- What fits into a table fits into all that it grows into. -/
theorem Fits.grows (h : types.Fits id row) (hgrows : types.Grows types') : types'.Fits id row where
  stored other hother := Nat.lt_of_lt_of_le (h.stored other hother) hgrows.size_le
  properties hm hfind := by
    obtain ⟨p, hp, hname⟩ := h.properties hm hfind
    exact ⟨p, hgrows.property hp, hname⟩
  operations hi hfind := by
    obtain ⟨o, ho, hname, hiface⟩ := h.operations hi hfind
    exact ⟨o, hgrows.operation ho, hname, hiface⟩
  listed hn hfind := by
    obtain ⟨shape, hshape, hlisting, hname, hpar⟩ := h.listed hn hfind
    obtain ⟨shape', hshape', hgrown⟩ := hgrows.shape hshape
    obtain ⟨hsame, hplace, hkind⟩ := hgrown.heading
    exact ⟨shape', hshape', hkind.trans hlisting, hsame.trans hname, hplace.trans hpar⟩
  namespaces hn hfind := by
    obtain ⟨inner, hshape, hname, hpar⟩ := h.namespaces hn hfind
    obtain ⟨shape', hshape', hgrown⟩ := hgrows.shape hshape
    cases hgrown with
    | same => exact ⟨inner, hshape', hname, hpar⟩
    | contents hext =>
      exact ⟨_, hshape', hext.name.trans hname, hext.parentNamespace.trans hpar⟩
  parameters ho := by
    obtain ⟨m, hm⟩ := h.parameters ho
    obtain ⟨m', hm', -⟩ := hgrows.model hm
    exact ⟨m', hm'⟩
  source hp hsource := by
    obtain ⟨hlt, original, hrow, heq⟩ := h.source hp hsource
    obtain ⟨shape, hrow', hgrown⟩ := hgrows.row hrow
    cases hgrown
    exact ⟨hlt, original, hrow', heq⟩

section

variable {node : Option NodeId}

/-- A model fits if its properties stand under their names. -/
theorem Fits.model {m : ModelType}
    (hstored : ∀ other ∈ (TypeShape.model m).stored, other.index < types.size)
    (hprops : ∀ {name t}, m.properties.find? name = some t →
      ∃ p, types.property? t = some p ∧ p.name = name) : types.Fits id ⟨node, .model m⟩ where
  stored := hstored
  properties hm hfind := hprops (TypeShape.model.inj hm ▸ hfind)

/-- An interface fits if its operations are its own. -/
theorem Fits.interface {i : InterfaceType}
    (hstored : ∀ other ∈ (TypeShape.interfaceType i).stored, other.index < types.size)
    (hops : ∀ {name t}, i.operations.find? name = some t →
      ∃ o, types.operation? t = some o ∧ o.name = name ∧ o.interface = some id) :
    types.Fits id ⟨node, .interfaceType i⟩ where
  stored := hstored
  operations hi hfind := hops (TypeShape.interfaceType.inj hi ▸ hfind)

/-- A namespace fits if what it lists is declared in it. -/
theorem Fits.contents
    (hstored : ∀ other ∈ (TypeShape.namespaceType n).stored, other.index < types.size)
    (hlisted : ∀ {listing name t}, (n.listed listing).find? name = some t →
      ∃ shape, types.shape? t = some shape ∧ shape.listing? = some listing ∧
        shape.name? = some name ∧ shape.parentNamespace? = some id)
    (hnss : ∀ {name t}, n.namespaces.find? name = some t →
      ∃ inner, types.shape? t = some (.namespaceType inner) ∧ inner.name = name ∧
        inner.parentNamespace = some id) :
    types.Fits id ⟨node, .namespaceType n⟩ where
  stored := hstored
  listed hn hfind := hlisted (TypeShape.namespaceType.inj hn ▸ hfind)
  namespaces hn hfind := hnss (TypeShape.namespaceType.inj hn ▸ hfind)

/-- A new namespace fits into the one around it. -/
theorem Fits.emptyNamespace {parent : Option TypeId} (hpar : ∀ p ∈ parent, types.Has p) :
    types.Fits id ⟨node, .namespaceType (.make name parent)⟩ := by
  refine .contents (fun other hother => has_iff.mp (hpar other ?_))
    (fun {listing key t} hfind => ?_) fun hfind => ?_
  · simpa [TypeShape.stored, TypeShape.links, TypeShape.surroundings, TypeShape.decorators,
      NamespaceType.make, decoratorTypes, OrderedMap.values, OrderedMap.empty] using hother
  · cases listing <;> simp [NamespaceType.listed, NamespaceType.make] at hfind
  · simp [NamespaceType.make] at hfind

/-- Of types without names inside nothing is asked but that what they mention is there. -/
theorem Fits.elementary (h : shape.isElementary = true)
    (hstored : ∀ other ∈ shape.stored, other.index < types.size) : types.Fits id ⟨node, shape⟩ := by
  cases shape <;> simp [TypeShape.isElementary] at h <;>
    exact { stored := hstored }

/-- A type that mentions nothing fits. -/
theorem Fits.simple (h : shape.isElementary = true) (hstored : shape.stored = []) :
    types.Fits id ⟨node, shape⟩ :=
  .elementary h (by simp [hstored])

end

/-- What is mentioned is there. -/
theorem Coherent.has_of_stores (h : types.Coherent) (hstores : types.Stores other) :
    types.Has other := by
  obtain ⟨id, shape, hshape, hmem⟩ := hstores
  obtain ⟨row, hrow, rfl⟩ := map_eq_some_iff.mp hshape
  exact has_iff.mpr ((h.fits hrow).stored other hmem)

/-- What a type refers to is there. -/
theorem Coherent.has_of_refers (h : types.Coherent) (hrefers : types.Refers id other) :
    types.Has other := by
  obtain ⟨shape, hshape, hmem⟩ := hrefers
  exact h.has_of_stores ⟨id, shape, hshape, by simp [TypeShape.stored, hmem]⟩

/-- A new type that fits has its name from older ones. -/
theorem Layered.push (h : types.Layered) (hrow : types.Fits types.nextId row) :
    Layered (types.push row) := by
  intro id shape hshape part hpart
  rcases shape?_push_cases hshape with ⟨rfl, rfl⟩ | hshape
  · exact hrow.stored part (row.shape.nameParts_subset_stored hpart)
  · exact h id shape hshape part hpart

/-- A type that grows keeps what its name is made of. -/
theorem Layered.modifyShape (h : types.Layered)
    (hgrown : ∀ {shape}, types.shape? id = some shape → shape.Grown (f shape)) :
    (types.modifyShape id f).Layered := by
  intro other shape hshape part hpart
  obtain ⟨old, hold, rfl | ⟨rfl, rfl⟩⟩ := shape?_modifyShape_cases hshape
  · exact h other _ hold part hpart
  · exact h _ old hold part ((hgrown hold).nameParts ▸ hpart)

/-- A type that fits may be added. -/
theorem Coherent.push (h : types.Coherent) (hrow : types.Fits types.nextId row)
    (hflat : ∀ {options}, row.shape = .union options →
      ∀ o ∈ options, types.Has o ∧ types.union? o = none := by simp) :
    Coherent (types.push row) := by
  have hgrows : types.Grows (Table.push types row) := .push _ _
  refine ⟨fun {other row'} hrow' => ?_, h.layered.push hrow, h.flat.grows hgrows fun {t _} ht => ?_⟩
  case refine_2 =>
    rcases shape?_push_cases (union?_eq_some_iff.mp ht) with ⟨-, heq⟩ | hold
    · exact .inr (hflat heq.symm)
    · exact .inl (union?_eq_some_iff.mpr hold)
  rcases Table.get?_push_cases hrow' with ⟨rfl, rfl⟩ | hold
  · exact hrow.grows hgrows
  · exact (h.fits hold).grows hgrows

/-- A type may be changed as long as it still fits. -/
theorem Coherent.modifyShape (h : types.Coherent)
    (hgrown : ∀ {shape}, types.shape? id = some shape → shape.Grown (f shape))
    (hfits : ∀ {row}, types.get? id = some row → types.Fits id { row with shape := f row.shape }) :
    (types.modifyShape id f).Coherent := by
  have hgrows : types.Grows (types.modifyShape id f) := .modifyShape hgrown
  refine ⟨fun {other row'} hrow' => ?_, h.layered.modifyShape hgrown,
    h.flat.grows hgrows fun {t _} ht => .inl ?_⟩
  case refine_2 =>
    rw [← ht, hgrows.union]
    obtain ⟨old, hold, -⟩ := shape?_modifyShape_cases (union?_eq_some_iff.mp ht)
    exact has_of_shape hold
  rw [get?_modifyShape] at hrow'
  split at hrow'
  next heq =>
    subst heq
    obtain ⟨row, hrow, rfl⟩ := map_eq_some_iff.mp hrow'
    exact (hfits hrow).grows hgrows
  · exact (h.fits hrow').grows hgrows

end TypeTable

/-- What a part adds to what is mentioned in a type is known, or is mentioned elsewhere. -/
theorem TypeShape.Amended.stored {types : TypeTable} {own : TypeId}
    (h : Amended types known own shape shape') :
    ∀ id ∈ shape'.stored, id ∈ shape.stored ∨ id ∈ known ∨ types.Stores id := by
  have hparts : ∀ id ∈ shape'.surroundings, id ∈ shape.surroundings := by
    cases h <;> exact fun id hid => hid
  have hdecs : ∀ id ∈ decoratorTypes shape'.decorators,
      id ∈ decoratorTypes shape.decorators ∨ id ∈ known ∨ types.Stores id := by
    cases h with
    | modelDecorators hattaches | interfaceDecorators hattaches =>
      exact fun id hid => .inr (hattaches id hid)
    | _ => exact fun id hid => .inl hid
  intro id hid
  simp only [TypeShape.stored, mem_append] at hid ⊢
  rcases hid with (hid | hid) | hid
  · exact (h.links id hid).imp (fun hold => .inl (.inl hold)) Or.inl
  · exact .inl (.inl (.inr (hparts id hid)))
  · exact (hdecs id hid).imp_left Or.inr

/-- Listing a type mentions it and nothing else. -/
theorem NamespaceType.stored_enlist {listing : Listing}
    (h : other ∈ (TypeShape.namespaceType (n.enlist listing name t)).stored) :
    other = t ∨ other ∈ (TypeShape.namespaceType n).stored := by
  cases listing <;>
    simp only [NamespaceType.enlist, TypeShape.stored, TypeShape.links, TypeShape.surroundings,
      TypeShape.decorators, mem_append] at h ⊢ <;>
    grind [OrderedMap.mem_values_insertIfNew]

/-- Decorators mention their arguments and nothing else. -/
theorem NamespaceType.stored_decorate {decorators : List DecoratorApplication} (h : other ∈
      (TypeShape.namespaceType { n with decorators := n.decorators ++ decorators }).stored) :
    other ∈ decoratorTypes decorators ∨ other ∈ (TypeShape.namespaceType n).stored := by
  simp only [TypeShape.stored, TypeShape.links, TypeShape.surroundings, TypeShape.decorators,
    decoratorTypes, flatMap_append, mem_append] at h ⊢
  tauto

/-- A nested namespace is mentioned and nothing else. -/
theorem NamespaceType.stored_addNamespace {t : TypeId} (h : other ∈ (TypeShape.namespaceType
      { n with namespaces := n.namespaces.insertIfNew name t }).stored) :
    other = t ∨ other ∈ (TypeShape.namespaceType n).stored := by
  simp only [TypeShape.stored, TypeShape.links, TypeShape.surroundings, TypeShape.decorators,
    mem_append] at h ⊢
  grind [OrderedMap.mem_values_insertIfNew]

namespace Checking

open TypeTable OrderedMap

variable {env : Environment} {check : Check} {node : NodeId} {s s' s₁ s₂ s₀ : State} {t : TypeId}
  {known : List TypeId} {own : Option TypeId}

/-! ### States -/

/-- The type table is coherent, and everything that is remembered or under construction is in it.
The types of literals are those that are remembered for them. -/
structure State.Coherent (s : State) : Prop where
  types : s.types.Coherent
  error : s.types.Has errorType
  arguments {i : Instantiation} : s.context = some i → ∀ a ∈ i.arguments, s.types.Has a
  parameters {p : NodeId} {t : TypeId} : s.parameterTypes.find? p = some t → s.types.Has t
  literals {literal : Literal} {t : TypeId} : s.literalTypes.find? literal = some t ↔
    s.types.shape? t = some literal.shape
  namespaces {symbol : SymbolId} {t : TypeId} : (s.linksOf symbol).namespaceType = some t →
    s.types.Has t
  declared {symbol : SymbolId} {t : TypeId} : s.declaredType? symbol = some t → s.types.Has t
  instances {symbol : SymbolId} {key : List TypeId} {t : TypeId} :
    (s.linksOf symbol).instances.find? key = some t → s.types.Has t
  pending {entry : NodeId × List TypeId} {t : TypeId} : s.pending.find? entry = some t →
    s.types.Has t

namespace State.Coherent

section

variable (h : s.Coherent)

include h

/-- The table may be exchanged for one that it grows into, if the types of literals are still those
that are remembered. -/
theorem replace {types : TypeTable} {literalTypes : OrderedMap Literal TypeId}
    (htypes : types.Coherent) (hgrows : s.types.Grows types)
    (hliterals : ∀ {literal t}, literalTypes.find? literal = some t ↔
      types.shape? t = some literal.shape) : { s with types, literalTypes }.Coherent where
  types := htypes
  error := hgrows.has h.error
  arguments hi a ha := hgrows.has (h.arguments hi a ha)
  parameters hp := hgrows.has (h.parameters hp)
  literals := hliterals
  namespaces hsym := hgrows.has (h.namespaces hsym)
  declared hsym := hgrows.has (h.declared hsym)
  instances hkey := hgrows.has (h.instances hkey)
  pending hentry := hgrows.has (h.pending hentry)

/-- A type that fits is added. -/
theorem addRow (hliteral : row.shape.isLiteral = false) (hrow : s.types.Fits s.types.nextId row)
    (hflat : ∀ {options}, row.shape = .union options →
      ∀ o ∈ options, s.types.Has o ∧ s.types.union? o = none := by simp) :
    (s.addRow row).Coherent := by
  refine h.replace (h.types.push hrow hflat) (.push _ _) fun {literal t} => h.literals.trans ?_
  rw [shape?_push]
  split
  next heq =>
    have hne : row.shape ≠ literal.shape := by
      rintro hshape
      cases literal <;> simp [hshape, TypeShape.isLiteral] at hliteral
    simp [heq, shape?, hne]
  · exact Iff.rfl

/-- A type is changed into one that fits. -/
theorem modifyShape {id : TypeId} (htypes : (s.types.modifyShape id f).Coherent)
    (hgrown : ∀ {shape}, s.types.shape? id = some shape → shape.Grown (f shape)) :
    (s.modifyTypes fun types => types.modifyShape id f).Coherent := by
  refine h.replace htypes (.modifyShape hgrown) fun {literal t} => h.literals.trans ?_
  rw [shape?_modifyShape]
  split
  next heq =>
    subst heq
    cases hshape : s.types.shape? t with
    | none => simp
    | some shape => simp [(hgrown hshape).literal_iff]
  · exact Iff.rfl

/-- Reports change no types. -/
theorem quiet (hquiet : Quiet s s') : s'.Coherent := by
  rw [hquiet.eq]
  exact { h with }

/-- Running decorators changes no types. -/
theorem decorated {applications : List DecoratorApplication}
    (hdec : Decorated t applications s s') : s'.Coherent := by
  rw [hdec.eq]
  exact { h with }

/-- Finishing a type changes no types. -/
theorem finished {finish : Bool} (hfin : Finished finish t s s') :
    s'.Coherent := by
  rcases hfin with rfl | ⟨-, hdec⟩
  · exact h
  · exact h.decorated hdec

/-- An internal error changes no types. -/
theorem raise (cause : InternalError) : (s.raise cause).Coherent := { h with }

/-- What is recorded for a symbol has to be there. -/
theorem modifyLinks {f : Links → Links}
    (hns : ∀ t, (f (s.linksOf symbol)).namespaceType = some t → s.types.Has t)
    (hdecl : ∀ t, (f (s.linksOf symbol)).declaredType = some t → s.types.Has t)
    (hinsts : ∀ key t, (f (s.linksOf symbol)).instances.find? key = some t → s.types.Has t) :
    (s.modifyLinks symbol f).Coherent := by
  have hlinks := fun other => linksOf_modifyLinks s symbol other f
  refine { h with
    namespaces := fun {other t} ht => ?_
    declared := fun {other t} ht => ?_
    instances := fun {other key t} ht => ?_ }
  all_goals
    simp only [State.declaredType?, hlinks] at ht
    split at ht
  · exact hns t ht
  · exact h.namespaces ht
  · exact hdecl t ht
  · exact h.declared ht
  · exact hinsts key t ht
  · exact h.instances ht

/-- An instance is recorded. -/
theorem instantiated (symbol : SymbolId) (arguments : List TypeId) (ht : s.types.Has t) :
    (s.addInstance symbol arguments t).Coherent := by
  refine h.modifyLinks (fun _ hu => h.namespaces hu) (fun _ hu => h.declared hu) fun key u hu => ?_
  rcases find?_insert_cases hu with ⟨-, rfl⟩ | hu
  · exact ht
  · exact h.instances hu

/-- A declared type is recorded. -/
theorem declare (symbol : Option SymbolId) {known : TypeId} (isTemplate : Bool) (key : List TypeId)
    (hknown : s.types.Has known) (htype : s.types.Has type) :
    (s.declare symbol known type isTemplate key).Coherent := by
  cases symbol with
  | none => exact h
  | some symbol =>
    rw [State.declare]
    refine h.modifyLinks (fun _ hu => h.namespaces hu) (fun u hu => ?_) fun other u hu => ?_
    · exact Option.some.inj hu ▸ hknown
    · cases isTemplate with
      | false => exact h.instances hu
      | true =>
        rcases find?_insert_cases hu with ⟨-, rfl⟩ | hu
        · exact htype
        · exact h.instances hu

/-- A type is entered as pending. -/
theorem addPending (entry : NodeId × List TypeId) (ht : s.types.Has t) :
    { s with pending := s.pending.insert entry t }.Coherent := by
  refine { h with pending := fun {other u} hu => ?_ }
  rcases find?_insert_cases hu with ⟨-, rfl⟩ | hu
  · exact ht
  · exact h.pending hu

/-- A type is no longer pending. -/
theorem erasePending (entry : NodeId × List TypeId) :
    { s with pending := s.pending.erase entry }.Coherent :=
  { h with pending := fun hu => h.pending (find?_of_find?_erase hu) }

/-- The type of a namespace is there, however it is found. -/
theorem namespaceType {found : Option SymbolId} (ht : found.bind s.namespaceTypeOf? = some t) :
    s.types.Has t := by
  obtain ⟨symbol, -, htype⟩ := bind_eq_some_iff.mp ht
  exact h.namespaces htype

/-- The type that is recorded for a declaration is there. -/
theorem declaredTypeOfNode (ht : s.declaredTypeOfNode? node = some t) : s.types.Has t := by
  obtain ⟨symbol, -, hdecl⟩ := bind_eq_some_iff.mp ht
  exact h.declared hdecl

/-- A union of types that are no unions is added. -/
theorem addUnion {options : List TypeId}
    (hflat : ∀ o ∈ options, s.types.Has o ∧ s.types.union? o = none) :
    (s.addRow ⟨some node, .union options⟩).Coherent := by
  refine h.addRow rfl (.elementary rfl fun o ho => has_iff.mp (hflat o ?_).1) ?_
  · simpa [TypeShape.stored, TypeShape.links, TypeShape.surroundings, TypeShape.decorators,
      decoratorTypes] using ho
  · rintro _ ⟨⟩
    exact hflat

/-- An alias is left, and its value is recorded. -/
theorem closeAlias (ht : s.types.Has t) (tree : Tree) (instantiating : Bool) :
    (s.closeAlias tree node key t instantiating).Coherent ∧
      (s.closeAlias tree node key t instantiating).types.Has t := by
  have hclosed : (s.leaveAlias (node, key)).Coherent := { h with }
  rw [State.closeAlias]
  split
  · exact ⟨hclosed, ht⟩
  · refine ⟨hclosed.declare _ _ _ ?_ ht, by rw [State.declare_eq]; exact ht⟩
    cases hknown : State.declaredTypeOfNode? _ node with
    | none => exact ht
    | some known => exact hclosed.declaredTypeOfNode hknown

/-- What a computation can mention is there. -/
theorem supplies (hknown : ∀ id ∈ known, s.types.Has id) (hsupplies : s.Supplies known t) :
    s.types.Has t := by
  rcases hsupplies with hmem | hstores | ⟨symbol, htype⟩
  · exact hknown t hmem
  · exact h.types.has_of_stores hstores
  · exact h.namespaces htype

/-- A row that is made of what is there fits. -/
theorem fits (hknown : ∀ id ∈ known, s.types.Has id) (hplain : row.shape.isPlain = true)
    (hlinks : row.shape.links ⊆ known) (hfounded : Founded s known own row) :
    s.types.Fits s.types.nextId row where
  stored other hother := by
    rw [← has_iff]
    rcases mem_append.mp hother with hother | hother
    · rcases mem_append.mp hother with hother | hother
      · exact hknown other (hlinks hother)
      · exact h.supplies hknown (hfounded.surroundings other hother)
    · exact (hfounded.decorators other hother).elim (hknown other) h.types.has_of_stores
  properties hm := by simp [hm] at hplain
  operations hi := by simp [hi] at hplain
  listed hn := by simp [hn] at hplain
  namespaces hn := by simp [hn] at hplain
  parameters ho := by
    rcases hfounded.parameters ho with ⟨m, hm⟩ | ⟨other, original, hother, heq⟩
    · exact ⟨m, model?_eq_some_iff.mpr hm⟩
    · obtain ⟨row, hrow, hshape⟩ :=
        map_eq_some_iff.mp (operation?_eq_some_iff.mp hother)
      exact heq ▸ (h.types.fits hrow).parameters hshape
  source hp hsource := by
    obtain ⟨original, hrow, heq⟩ := hfounded.source hp hsource
    exact ⟨has_iff.mp ⟨_, hrow⟩, original, hrow, heq⟩

/-- A type under construction still fits when a part is added to it. -/
theorem fits_amended {node : Option NodeId} (hknown : ∀ id ∈ known, s.types.Has id)
    (hfits : s.types.Fits t ⟨node, shape⟩) (hamended : shape.Amended s.types known t shape') :
    s.types.Fits t ⟨node, shape'⟩ := by
  have hstored : ∀ other ∈ shape'.stored, other.index < s.types.size := by
    intro other hother
    rcases hamended.stored other hother with hold | hnew | hstores
    · exact hfits.stored other hold
    · exact has_iff.mp (hknown other hnew)
    · exact has_iff.mp (h.types.has_of_stores hstores)
  cases hamended with
  | same => exact hfits
  | @property m id p hid hp =>
    refine .model hstored fun {name u} hfind => ?_
    rcases find?_insert_cases hfind with ⟨rfl, rfl⟩ | hfind
    · exact ⟨p, hp, rfl⟩
    · exact hfits.properties rfl hfind
  | base | modelDecorators => exact .model hstored fun hfind => hfits.properties rfl hfind
  | interfaceDecorators => exact .interface hstored fun hfind => hfits.operations rfl hfind
  | operations _ hequips =>
    exact .interface hstored fun hfind => (hequips _ (find?_eq_some_iff.mp hfind)).2
  | members => exact .elementary rfl hstored

end

end State.Coherent

/-- The properties of an intersection fit. -/
theorem Named.fits {properties : OrderedMap String TypeId}
    (h : Named s.types known properties) (hknown : ∀ id ∈ known, s.types.Has id) :
    s.types.Fits t ⟨some node, .model { ModelType.anonymous with properties }⟩ := by
  refine .model (fun other hother => ?_) fun hfind => (h _ (find?_eq_some_iff.mp hfind)).2
  have hvalue : other ∈ properties.values := by
    simpa [TypeShape.stored, TypeShape.links, TypeShape.surroundings, TypeShape.decorators,
      ModelType.anonymous, decoratorTypes] using hother
  obtain ⟨entry, hentry, rfl⟩ := mem_map.mp hvalue
  exact has_iff.mp (hknown _ (h entry hentry).1)

/-! ### Template parameters and references -/

/-- Every run of a check keeps states coherent and comes to a type that is there. -/
def Grounded (env : Environment) (check : Check) : Prop :=
  ∀ {node : NodeId} {s s' : State} {t : TypeId}, s.Coherent → check node env s = some (t, s') →
    s'.Coherent ∧ s'.types.Has t

/-- A new type is there. -/
theorem has_nextId (row : TypeRecord) : (s.addRow row).types.Has s.types.nextId :=
  has_of_shape (shape?_push_nextId row)

/-- A parameter stands for a type that is there. -/
theorem checkTemplateParameter_grounded {p : NodeId} (h : s.Coherent)
    (hrun : checkTemplateParameter p env s = some (t, s')) : s'.Coherent ∧ s'.types.Has t := by
  rcases checkTemplateParameter_cases hrun with ⟨rfl, harg⟩ | ⟨-, ⟨rfl, hknown⟩ | ⟨-, rfl, rfl⟩⟩
  · obtain ⟨declaration, arguments, index, -, hctx, -, hat⟩ :=
      templateArgument?_eq_some_iff.mp harg
    exact ⟨h, h.arguments hctx t (mem_of_getElem? hat)⟩
  · exact ⟨h, h.parameters hknown⟩
  · have hadded : (s.addRow ⟨some p, .templateParameter⟩).Coherent :=
      h.addRow rfl (.simple rfl rfl)
    refine ⟨{ hadded with parameters := fun {q u} hu => ?_ }, has_nextId _⟩
    rcases find?_insert_cases hu with ⟨-, rfl⟩ | hu
    · exact has_nextId _
    · exact hadded.parameters hu

/-- A literal has the type that is remembered for it. -/
theorem checkLiteral_grounded {literal : Literal} (h : s.Coherent)
    (hrun : checkLiteral node literal env s = some (t, s')) : s'.Coherent ∧ s'.types.Has t := by
  rcases checkLiteral_cases hrun with ⟨rfl, hknown⟩ | ⟨hnone, rfl, rfl⟩
  · exact ⟨h, has_of_shape (h.literals.mp hknown)⟩
  · have hrow : s.types.Fits s.types.nextId ⟨some node, literal.shape⟩ := by
      cases literal <;> exact .simple rfl rfl
    refine ⟨h.replace (h.types.push hrow (by cases literal <;> simp)) (.push _ _)
      fun {other u} => ?_, has_nextId _⟩
    have hold : s.literalTypes.find? other = some u ↔ s.types.shape? u = some other.shape :=
      h.literals
    change _ ↔ shape? (s.types.push _) u = _
    rw [find?_insert, shape?_push]
    by_cases hother : other = literal <;> by_cases hu : u = s.types.nextId
    · simp [hother, hu]
    · subst hother
      simp [hu, ← hold, hnone, Ne.symm hu]
    · rw [if_neg hother, hold, if_pos hu]
      simp [hu, shape?, Literal.shape_injective.eq_iff, Ne.symm hother]
    · simp [hother, hu, hold]

/-- Parameters stand for types that are there. -/
theorem templateParameters_grounded {ps : List NodeId} (h : s.Coherent)
    (hrun : ps.mapM checkTemplateParameter env s = some (key, s')) :
    s'.Coherent ∧ ∀ a ∈ key, s'.types.Has a := by
  induction ps generalizing s key with
  | nil =>
    obtain ⟨rfl, rfl⟩ := run_mapM_nil.mp hrun
    exact ⟨h, by simp⟩
  | cons p ps ih =>
    obtain ⟨a, s₁, rest, hp, hps, rfl⟩ := run_mapM_cons.mp hrun
    obtain ⟨h₁, ha⟩ := checkTemplateParameter_grounded h hp
    obtain ⟨h₂, hrest⟩ := ih h₁ hps
    have hframe : Frame none s₁ s' := mapM_checkTemplateParameter_frame hps
    exact ⟨h₂, forall_mem_cons.mpr ⟨hframe.grows.has ha, hrest⟩⟩

/-- A template is known by types that are there. -/
theorem templateKey_grounded (h : s.Coherent) (hrun : templateKey node env s = some (key, s')) :
    s'.Coherent ∧ ∀ a ∈ key, s'.types.Has a := by
  rcases templateKey_cases hrun with ⟨rfl, hctx⟩ | ⟨-, hrun⟩
  · exact ⟨h, h.arguments hctx⟩
  · exact templateParameters_grounded h hrun

section

variable (hframed : Framed env check) (hcheck : Grounded env check)

include hframed hcheck

/-- The options of a union are those of the types of its operands. -/
theorem checkOptions_grounded {operands : List NodeId} {lists : List (List TypeId)} (h : s.Coherent)
    (hrun : operands.mapM (checkOption check) env s = some (lists, s')) :
    s'.Coherent ∧ s.types.Grows s'.types ∧ ∃ ts, operands.mapM check env s = some (ts, s') ∧
      (∀ t ∈ ts, s'.types.Has t) ∧ lists.flatten = ts.flatMap s'.types.optionsOf := by
  induction operands generalizing s lists with
  | nil =>
    obtain ⟨rfl, rfl⟩ := run_mapM_nil.mp hrun
    exact ⟨h, .refl _, [], run_mapM_nil.mpr ⟨rfl, rfl⟩, by simp, rfl⟩
  | cons n operands ih =>
    obtain ⟨options, s₁, rest, hn, hrest, rfl⟩ := run_mapM_cons.mp hrun
    obtain ⟨t, s₂, hcall, hn⟩ := run_bind.mp hn
    simp only [getTypes_bind, run_pure] at hn
    obtain ⟨rfl, rfl⟩ := hn
    obtain ⟨h₁, ht⟩ := hcheck h hcall
    obtain ⟨h', hgrows, ts, hts, hhas, heq⟩ := ih h₁ hrest
    refine ⟨h', (hframed.frame hcall).grows.trans hgrows, t :: ts,
      run_mapM_cons.mpr ⟨t, _, ts, hcall, hts, rfl⟩,
      forall_mem_cons.mpr ⟨hgrows.has ht, hhas⟩, ?_⟩
    rw [flatten_cons, flatMap_cons, heq, optionsOf, hgrows.union ht]

/-- A check in another context is a check like any other. -/
theorem Grounded.within {context : Option Instantiation} (h : s.Coherent)
    (hargs : ∀ i, context = some i → ∀ a ∈ i.arguments, s.types.Has a)
    (hrun : check declaration env { s with context } = some (t, s₁)) :
    { s₁ with context := s.context }.Coherent ∧ s₁.types.Has t := by
  have hent : { s with context }.Coherent := { h with arguments := fun {i} hi => hargs i hi }
  obtain ⟨h₁, ht⟩ := hcheck hent hrun
  have hgrows : s.types.Grows s₁.types := (hframed.frame hrun).grows
  exact ⟨{ h₁ with arguments := fun hi a ha => hgrows.has (h.arguments hi a ha) }, ht⟩

/-- The type of a declaration is there. -/
theorem checkDeclaredType_grounded (h : s.Coherent)
    (hrun : checkDeclaredType check symbol declaration env s = some (t, s')) :
    s'.Coherent ∧ s'.types.Has t := by
  obtain ⟨hknown, rfl⟩ | ⟨-, s₁, hinside, rfl⟩ := checkDeclaredType_cases hrun
  · exact ⟨h, h.declared hknown⟩
  · exact hcheck.within hframed h (by simp) hinside

/-- An instance is there. -/
theorem instantiate_grounded (h : s.Coherent) (hargs : ∀ a ∈ arguments, s.types.Has a)
    (hrun : instantiate check symbol declaration arguments env s = some (t, s')) :
    s'.Coherent ∧ s'.types.Has t := by
  obtain ⟨hknown, rfl⟩ | ⟨-, ⟨hpend, rfl⟩ | ⟨-, s₁, hinside, rfl⟩⟩ := instantiate_cases hrun
  · exact ⟨h, h.instances hknown⟩
  · exact ⟨h, h.pending hpend⟩
  · obtain ⟨h₁, ht⟩ := hcheck.within hframed h (fun i hi => Option.some.inj hi ▸ hargs) hinside
    exact ⟨h₁.instantiated _ _ ht, ht⟩

/-- What a name without arguments means is there. -/
theorem checkReferent_grounded (h : s.Coherent)
    (hrun : checkReferent check symbol kind declaration env s = some (t, s')) :
    s'.Coherent ∧ s'.types.Has t := by
  obtain ⟨-, hrun⟩ | ⟨-, ⟨htype, rfl⟩ | hrun⟩ | ⟨-, -, hrun⟩ := checkReferent_cases hrun
  · exact checkTemplateParameter_grounded h hrun
  · exact ⟨h, h.namespaces htype⟩
  · exact hcheck h hrun
  · exact checkDeclaredType_grounded hframed hcheck h hrun

/-- What a reference means is there. -/
theorem checkDeclaredReference_grounded (h : s.Coherent) (hgiven : ∀ a ∈ given, s.types.Has a)
    (hrun : checkDeclaredReference check node symbol kind declaration given env s = some (t, s')) :
    s'.Coherent ∧ s'.types.Has t := by
  obtain ⟨-, -, known, s₁, s₂, s₃, fitted, hdecl, hquiet, -, hfitted, hinst, rfl⟩ |
    ⟨-, s₁, hrefnt, hquiet⟩ := checkDeclaredReference_cases hrun
  · obtain ⟨h₁, -⟩ := checkDeclaredType_grounded hframed hcheck h hdecl
    have h₂ := h₁.quiet hquiet
    have hgrows : s.types.Grows s₂.types :=
      hquiet.types ▸ (checkDeclaredType_frame hframed hdecl).grows
    have hargs : ∀ a ∈ fitted, s₂.types.Has a := fun a ha =>
      (hfitted a ha).elim (fun hmem => hgrows.has (hgiven a hmem)) fun heq => heq ▸ h₂.error
    obtain ⟨h₃, ht⟩ := instantiate_grounded hframed hcheck h₂ hargs hinst
    exact ⟨{ h₃ with }, ht⟩
  · obtain ⟨h₁, ht⟩ := checkReferent_grounded hframed hcheck h hrefnt
    have hnoted : { s₁ with references := ⟨node, declaration, [], t⟩ :: s₁.references }.Coherent :=
      { h₁ with }
    exact ⟨hnoted.quiet hquiet, by rw [hquiet.types]; exact ht⟩

/-! ### Work -/

/-- What is known is there. -/
structure Moment.Coherent (m : Moment) : Prop where
  state : m.state.Coherent
  known : ∀ id ∈ m.known, m.state.types.Has id

/-- In each step what is known stays there. -/
theorem Step.coherent {m m' : Moment} (h : m.Coherent)
    (hstep : Step env check template own floor m m') : m'.Coherent := by
  have hgrows := (hstep.frame hframed).grows
  have hold : ∀ id ∈ m.known, m'.state.types.Has id := fun id hid => hgrows.has (h.known id hid)
  cases hstep with
  | quiet hquiet => exact ⟨h.state.quiet hquiet, hold⟩
  | raise => exact ⟨h.state.raise _, hold⟩
  | error => exact ⟨h.state, forall_mem_cons.mpr ⟨h.state.error, hold⟩⟩
  | look _ hrefers =>
    exact ⟨h.state, forall_mem_cons.mpr ⟨h.state.types.has_of_refers hrefers, hold⟩⟩
  | call _ hrun =>
    obtain ⟨h', ht⟩ := hcheck h.state hrun
    exact ⟨h', forall_mem_cons.mpr ⟨ht, hold⟩⟩
  | refer _ hgiven hrun =>
    obtain ⟨h', ht⟩ := checkDeclaredReference_grounded hframed hcheck h.state
      (fun a ha => h.known a (hgiven ha)) hrun
    exact ⟨h', forall_mem_cons.mpr ⟨ht, hold⟩⟩
  | push _ hplain _ hlinks hfounded hfin =>
    have hadded := h.state.addRow (TypeShape.isLiteral_of_isPlain hplain)
      (h.state.fits h.known hplain hlinks hfounded) fun heq => absurd heq hfounded.joined
    refine ⟨hadded.finished hfin, forall_mem_cons.mpr ⟨?_, hold⟩⟩
    rw [hfin.types]
    exact has_nextId _
  | assemble _ hnamed =>
    exact ⟨h.state.addRow rfl (hnamed.fits h.known), forall_mem_cons.mpr ⟨has_nextId _, hold⟩⟩
  | @amend s known id f hown hamended =>
    have hs : s.Coherent := h.state
    have hamends : (s.types.modifyShape id f).Coherent := by
      refine hs.types.modifyShape (fun hshape => (hamended hshape).grown) fun {row} hrow => ?_
      have hshape : s.types.shape? id = some row.shape := by rw [shape?, hrow]; rfl
      exact hs.fits_amended h.known (hs.types.fits hrow) (hamended hshape)
    have hstate : (s.modifyTypes fun types => types.modifyShape id f).Coherent :=
      hs.modifyShape hamends fun hshape => (hamended hshape).grown
    exact ⟨hstate, hold⟩
  | note => exact ⟨{ h.state with }, hold⟩

/-- Steps in turn keep a state coherent. -/
theorem Leads.coherent {P : List TypeId → Prop}
    (h : s.Coherent) (hknown : ∀ id ∈ known, s.types.Has id)
    (hleads : Leads env check template own floor s known s' P) :
    s'.Coherent ∧ ∃ known', P known' ∧ ∀ id ∈ known', s'.types.Has id := by
  obtain ⟨known', hwork, hP⟩ := hleads
  have hlater : Moment.Coherent ⟨s', known'⟩ := hwork.preserves (P := Moment.Coherent)
    (fun hstep hm => hstep.coherent hframed hcheck hm) ⟨h, hknown⟩
  exact ⟨hlater.state, known', hP, hlater.known⟩

/-- Filling in a type keeps a state coherent. -/
theorem Completes.coherent (h : s.Coherent)
    (hknown : ∀ id ∈ known, s.types.Has id)
    (hcomps : Completes env check template type floor s s₁ s' known) : s'.Coherent := by
  obtain ⟨finish, hfin, -⟩ := hcomps.finished
  exact (hcomps.filled.coherent hframed hcheck h hknown).1.finished hfin

end

/-! ### Checks -/

/-- A type can be listed as what a declaration is. -/
structure Listable (env : Environment) (s : State) (node : NodeId) (shape : TypeShape) : Prop
    extends Headed env s node shape where
  listing {kind : NodeKind} {listing : Listing} {name : String} :
    env.tree.kind? node = some kind → kind.listing? = some (listing, name) →
    shape.listing? = some listing

/-- A type is listed as what its declaration is. -/
theorem Headed.listable {kind : NodeKind} (h : Headed env s node shape)
    (hkind : env.tree.kind? node = some kind) (hlisting : kind.listing?.map Prod.fst = shape.listing?) :
    Listable env s node shape := by
  refine ⟨h, fun hother hlists => ?_⟩
  obtain rfl := mem_unique hkind hother
  rw [← hlisting, hlists, map_some]

/-- A type that has grown can still be listed. -/
theorem Listable.grown (h : Listable env s node shape)
    (hframe : Frame own s s') (hgrown : shape.Grown shape') :
    Listable env s' node shape' := by
  obtain ⟨hname, hpar, hlisting⟩ := hgrown.heading
  refine ⟨⟨hname.trans h.name, hpar.trans ?_⟩,
    fun hkind hkindListing => hlisting.trans (h.listing hkind hkindListing)⟩
  exact h.parent.trans (hframe.parentNamespaceType node).symm

/-- A namespace may be filled with what fits into it. -/
theorem State.Coherent.fill (h : s.Coherent) (id : TypeId) {f : NamespaceType → NamespaceType}
    (hf : ∀ n : NamespaceType, n.Extends (f n))
    (hfits : ∀ {node n}, s.types.Fits id ⟨node, .namespaceType n⟩ →
      s.types.Fits id ⟨node, .namespaceType (f n)⟩) :
    (s.modifyTypes fun types => types.modifyNamespace id f).Coherent := by
  refine h.modifyShape (h.types.modifyShape (fun _ => .fill hf _) fun {row} hrow => ?_)
    fun _ => .fill hf _
  have hold := h.types.fits hrow
  obtain ⟨node, shape⟩ := row
  cases shape with
  | namespaceType n => exact hfits hold
  | _ => exact hold

/-- The decorators of a namespace are added to it. -/
theorem State.Coherent.decorateNamespace (h : s.Coherent) (id : TypeId)
    {decorators : List DecoratorApplication}
    (hdecs : ∀ other ∈ decoratorTypes decorators, s.types.Has other) :
    (s.modifyTypes fun types => types.modifyNamespace id fun n =>
      { n with decorators := n.decorators ++ decorators }).Coherent := by
  refine h.fill id (fun n => .decorate n decorators) fun {node n} hfits => .contents
    (fun other hother => ?_) (fun {listing _ _} hfind => ?_) fun hfind => hfits.namespaces rfl hfind
  · rcases NamespaceType.stored_decorate hother with hother | hother
    · exact has_iff.mp (hdecs other hother)
    · exact hfits.stored other hother
  · exact hfits.listed rfl (by cases listing <;> exact hfind)

/-- A declared type is listed in its namespace. -/
theorem State.Coherent.enlist (h : s.Coherent) (hshape : s.types.shape? t = some shape)
    (hlistable : Listable env s node shape) :
    (s.enlist env.tree node t).Coherent ∧ (s.enlist env.tree node t).types.Has t := by
  have hframe : Frame none s (s.enlist env.tree node t) := (s.enlist_filled env.tree node t).frame
  refine ⟨?_, hframe.grows.has (has_of_shape hshape)⟩
  rw [State.enlist]
  split
  next parent listing name hpar hlisting =>
    obtain ⟨kind, hkind, hlisting⟩ := bind_eq_some_iff.mp hlisting
    have hname : shape.name? = some name := by
      rw [hlistable.name, Tree.declaredName?, hkind]
      cases kind <;> simp_all [NodeKind.listing?, NodeKind.declaredName?]
    refine h.fill parent (NamespaceType.extends_enlist _ _ _) fun {node n} hfits => .contents
      (fun other hother => ?_) (fun {which key u} hfind => ?_) fun hfind => ?_
    · rcases NamespaceType.stored_enlist hother with rfl | hother
      · exact has_iff.mp (has_of_shape hshape)
      · exact hfits.stored other hother
    · rw [NamespaceType.listed_enlist] at hfind
      split at hfind
      next heq =>
        rcases find?_insertIfNew_cases hfind with ⟨rfl, rfl⟩ | hfind
        · exact ⟨shape, hshape, heq ▸ hlistable.listing hkind hlisting, hname,
            hlistable.parent.trans hpar⟩
        · exact hfits.listed rfl hfind
      · exact hfits.listed rfl hfind
    · exact hfits.namespaces rfl (by cases listing <;> exact hfind)
  · exact h

/-- A declaration that is closed is recorded and listed. -/
theorem State.Coherent.closed {isTemplate instantiating : Bool} (h : s.Coherent)
    (hshape : s.types.shape? t = some shape) (hlistable : Listable env s node shape)
    (hclosed : Closed env.tree node key t isTemplate instantiating s s') :
    s'.Coherent ∧ s'.types.Has t := by
  have ht := has_of_shape hshape
  cases hclosed with
  | instantiated => exact ⟨h.erasePending _, ht⟩
  | declared heq =>
    have hdecl := h.declare (s.bindings.symbolOf? node) isTemplate key ht ht
    have hframe : Frame none s (s.declare (s.bindings.symbolOf? node) t t isTemplate key) :=
      declare_frame _ _ _ _ _
    obtain ⟨hlisted, hhas⟩ := hdecl.enlist (by rw [State.declare_eq]; exact hshape)
      (hlistable.grown hframe (.same _))
    exact heq ▸ ⟨hlisted.erasePending _, hhas⟩

/-- What a declaration is entered as fits into the table. -/
theorem Built.fits (hbuilt : Built env check node t stub marks s₁ s₂) (h : s.Coherent)
    (horigin : stub.origin? = some (arguments, template)) (hheaded : Headed env s node stub)
    (hdecs : stub.decorators = []) (hargs : ∀ a ∈ arguments, s.types.Has a) :
    s.types.Fits s.types.nextId ⟨some node, stub⟩ := by
  have hpar : ∀ other ∈ stub.parentNamespace?, s.types.Has other := fun other hother =>
    h.namespaceType (hheaded.parent ▸ hother)
  have hstored : ∀ other ∈ stub.stored, other.index < s.types.size := by
    intro other hother
    rw [TypeShape.stored, hbuilt.links_eq horigin, hdecs] at hother
    rw [← has_iff]
    rcases mem_append.mp hother with hother | hother
    · rcases mem_append.mp hother with hother | hother
      · exact hargs other hother
      · cases hbuilt <;> exact hpar other (mem_toList.mp hother)
    · simp [decoratorTypes] at hother
  cases hbuilt with
  | model _ hempty => exact .model hstored (by simp [hempty])
  | interface _ hempty => exact .interface hstored (by simp [hempty])

/-- A declaration that is opened is pending. -/
theorem Built.opened_coherent (hbuilt : Built env check node t stub marks s₀ s₂) (h : s.Coherent)
    (hkey : templateKey node env s = some (key, s₁))
    (horigin : stub.origin? = some (if s.isInstantiating node then key else [], template))
    (hheaded : Headed env s₁ node stub) (hdecs : stub.decorators = []) :
    (s₁.opened node key stub marks).Coherent := by
  obtain ⟨h₁, hkeys⟩ := templateKey_grounded h hkey
  have hargs : ∀ a ∈ (if s.isInstantiating node then key else []), s₁.types.Has a := by
    split
    · exact hkeys
    · simp
  have hadded := h₁.addRow (by cases hbuilt <;> rfl) (hbuilt.fits h₁ horigin hheaded hdecs hargs)
    (by cases hbuilt <;> simp)
  exact { hadded.addPending (node, key) (has_nextId ⟨some node, stub⟩) with }

/-- An operation is recorded and listed after it is finished. -/
theorem State.Coherent.addOperation {parts : OperationNode} {o : OperationType} {finish : Bool}
    (h : s.Coherent) (hkind : env.tree.kind? node = some (.operationStatement parts))
    (hiface : o.interface = none) (hheaded : Headed env s node (.operation o))
    (hfits : s.types.Fits s.types.nextId ⟨some node, .operation o⟩)
    (hfin : Finished finish s.types.nextId (s.addRow ⟨some node, .operation o⟩) s₁)
    (heq : s' = (s₁.declare (s₁.bindings.symbolOf? node) s.types.nextId s.types.nextId false
      []).enlist env.tree node s.types.nextId) : s'.Coherent ∧ s'.types.Has s.types.nextId := by
  have h₁ := (h.addRow rfl hfits).finished hfin
  have hshape : s₁.types.shape? s.types.nextId = some (.operation o) := by
    rw [hfin.types]
    exact shape?_push_nextId _
  have hlistable := hheaded.listable hkind (by
    simp [NodeKind.listing?, TypeShape.listing?, hiface])
  have ht := has_of_shape hshape
  have hframe : Frame none s (s₁.declare (s₁.bindings.symbolOf? node) s.types.nextId
      s.types.nextId false []) :=
    Frame.trans (.addRow (by simp)) ((Frame.ofFinished hfin).trans (declare_frame _ _ _ _ _))
  exact heq ▸ (h₁.declare (s₁.bindings.symbolOf? node) false [] ht ht).enlist
    (by rw [State.declare_eq]; exact hshape) (hlistable.grown hframe (.same _))

section

variable (hwf : env.tree.WellFormed) (hframed : Framed env check) (hcheck : Grounded env check)

include hwf hframed hcheck

/-- An enum is entered, filled in and listed. -/
theorem Enumerates.coherent {parts : EnumNode} {e : EnumType} {members : List TypeId}
    (h : s.Coherent) (hkind : env.tree.kind? node = some (.enumStatement parts))
    (hempty : e.members = []) (hheaded : Headed env s node (.enumType e))
    (hdecs : ∀ other ∈ decoratorTypes e.decorators, s.types.Has other)
    (henumerates : Enumerates env check parts.members s.types.nextId
      (s.entered node (.enumType e)) s₁ s₂ members) :
    (s₂.enlist env.tree node s.types.nextId).Coherent ∧
      (s₂.enlist env.tree node s.types.nextId).types.Has s.types.nextId := by
  have hfits : s.types.Fits s.types.nextId ⟨some node, .enumType e⟩ := by
    refine .elementary rfl fun other hother => has_iff.mp ?_
    rw [TypeShape.stored, TypeShape.links, hempty, nil_append] at hother
    rcases mem_append.mp hother with hother | hother
    · exact h.namespaceType (hheaded.parent.symm.trans (mem_toList.mp hother))
    · exact hdecs other hother
  have hopened : (s.entered node (.enumType e)).Coherent :=
    (h.addRow rfl hfits).declare _ false [] (has_nextId _) (has_nextId _)
  have hadded : Frame none s (s.entered node (.enumType e)) :=
    Frame.trans (.addRow (by simp)) (declare_frame _ _ _ _ _)
  have hshape := @entered_shape s node (.enumType e)
  have hlistable := hheaded.listable hkind rfl
  have hframe := henumerates.frame hwf hframed hkind hshape hempty
  obtain ⟨shape, hshape₂, hgrown⟩ := hframe.grows.shape hshape
  have h₂ := (henumerates.completes hwf hframed 0 hkind hshape hempty).coherent hframed hcheck
    hopened (by simpa using has_of_shape hshape)
  exact h₂.enlist hshape₂ (hlistable.grown ((hadded.mono _).trans hframe) hgrown)

/-- A declaration is filled in after it is opened, and closed. -/
theorem Built.coherent {isTemplate instantiating : Bool}
    (hbuilt : Built env check node s₁.types.nextId stub marks (s₁.opened node key stub marks) s₂)
    (hopened : (s₁.opened node key stub marks).Coherent) (hheaded : Headed env s₁ node stub)
    (hclosed : Closed env.tree node key s₁.types.nextId isTemplate instantiating
      { s₂ with building := s₁.building } s') : s'.Coherent ∧ s'.types.Has s₁.types.nextId := by
  obtain ⟨_, hcomps⟩ := hbuilt.completes hwf hframed
  have h₂ := hcomps.coherent hframed hcheck hopened
    (by simpa using has_of_shape (opened_shape node key stub marks))
  have hframe := hbuilt.frame_own hwf hframed
  obtain ⟨shape, hshape, hgrown⟩ := hframe.grows.shape (opened_shape node key stub marks)
  have hleft : { s₂ with building := s₁.building }.Coherent := { h₂ with }
  have hlistable : Listable env (s₁.opened node key stub marks) node stub := by
    cases hbuilt with
    | model hkind | interface hkind =>
      exact Headed.listable ⟨hheaded.name, hheaded.parent⟩ hkind rfl
  obtain ⟨⟨hname, hparent⟩, hlisting⟩ := hlistable.grown hframe hgrown
  exact hleft.closed hshape ⟨⟨hname, hparent⟩, hlisting⟩ hclosed

/-- Whatever a check does, it keeps states coherent and comes to a type that is there. -/
theorem Evaluates.coherent (h : s.Coherent) (heval : Evaluates env check node s t s') :
    s'.Coherent ∧ s'.types.Has t := by
  cases heval with
  | work _ hleads =>
    obtain ⟨h', known, ht, hknown⟩ := hleads.coherent hframed hcheck h (by simp)
    exact ⟨h', hknown t ht⟩
  | union _ hoptions =>
    obtain ⟨h₁, -, ts, -, hhas, heq⟩ := checkOptions_grounded hframed hcheck h hoptions
    exact ⟨h₁.addUnion (heq ▸ h₁.types.flat.optionsOf hhas), has_nextId _⟩
  | known _ _ _ hdecl => exact ⟨h, h.declaredTypeOfNode hdecl⟩
  | parameter _ hrun => exact checkTemplateParameter_grounded h hrun
  | literal _ hrun => exact checkLiteral_grounded h hrun
  | @intrinsic name =>
    have hadded : (s.addRow ⟨some node, .intrinsic name⟩).Coherent := h.addRow rfl (.simple rfl rfl)
    refine ⟨hadded.declare _ _ _ (has_nextId _) (has_nextId _), ?_⟩
    rw [State.entered, State.declare_eq]
    exact has_nextId _
  | pending hkey hpend =>
    obtain ⟨h₁, -⟩ := templateKey_grounded h hkey
    exact ⟨h₁, h₁.pending hpend⟩
  | construct _ hkey _ horigin hheaded hdecs hbuilt hclosed =>
    have hopened := hbuilt.opened_coherent h hkey horigin hheaded hdecs
    exact hbuilt.coherent hwf hframed hcheck hopened hheaded hclosed
  | expression hkind hmems =>
    have hfits : s.types.Fits s.types.nextId ⟨some node, .model .anonymous⟩ :=
      .model (fun _ hother => absurd hother not_mem_nil) (by simp [ModelType.anonymous])
    have hadded := h.addRow rfl hfits
    have hopened : (s.drafted node).Coherent := { hadded with }
    have hleads := checkExpression_leads hwf hframed hkind hmems
    obtain ⟨h₁, -⟩ := hleads.coherent hframed hcheck hopened (by simp)
    exact ⟨{ h₁ with }, (hleads.frame hframed).grows.has (has_nextId ⟨some node, .model .anonymous⟩)⟩
  | enum hkind _ hbefore hempty hheaded henumerates heq =>
    obtain ⟨h₁, known, hdecs, hknown⟩ := hbefore.coherent hframed hcheck h (by simp)
    exact heq ▸ henumerates.coherent hwf hframed hcheck h₁ hkind hempty hheaded
      fun other hother => hknown other (hdecs hother)
  | operation hkind _ _ hiface hheaded hleads hfin heq =>
    obtain ⟨h₁, known, ⟨hlinks, hfounded⟩, hknown⟩ := hleads.coherent hframed hcheck h (by simp)
    exact h₁.addOperation hkind hiface hheaded (h₁.fits hknown rfl hlinks hfounded) hfin heq
  | cyclicAlias _ hkey _ hquiet =>
    obtain ⟨h₁, -⟩ := templateKey_grounded h hkey
    exact ⟨h₁.quiet hquiet, by rw [hquiet.types]; exact h₁.error⟩
  | @aliased s₁ s₂ _ parts key _ _ hkey hvalue =>
    obtain ⟨h₁, -⟩ := templateKey_grounded h hkey
    have hopened : (s₁.openAlias (node, key)).Coherent := { h₁ with }
    obtain ⟨h₂, ht⟩ := hcheck hopened hvalue
    exact h₂.closeAlias ht _ _
  | untyped => exact ⟨h.raise _, h.error⟩
  | visited _ htype => exact ⟨h, h.namespaceType htype⟩
  | @contents s₁ s₂ _ _ parts decorators _ htype _ hleads hdec hstmts =>
    have hvisiting : (s.visiting node).Coherent := { h with }
    obtain ⟨h₁, known, hsub, hknown⟩ := hleads.coherent hframed hcheck hvisiting (by simp)
    have hfilled := h₁.decorateNamespace t fun other hother => hknown other (hsub hother)
    have hframe : Frame none _ s' := (hleads.frame hframed).trans (Frame.trans
      (.modifyNamespace t fun n => .decorate n decorators) ((Frame.ofDecorated hdec).trans
        (visits_frame hframed hstmts)))
    exact ⟨visits_preserves (hfilled.decorated hdec) (fun h hrun => (hcheck h hrun).1) hstmts,
      hframe.grows.has (h.namespaceType htype)⟩

end

/-- Every check keeps states coherent, however deeply it is nested. -/
theorem checkNode_grounded (hwf : env.tree.WellFormed) (depth : Nat) :
    Grounded env (checkNode depth) := by
  induction depth with
  | zero => exact fun _ hrun => absurd hrun run_checkNode_zero
  | succ depth ih =>
    intro node s s' t h hrun
    have hframed := checkNode_framed hwf depth
    exact (checkStep_evaluates hwf hframed hrun).coherent hwf hframed ih h

/-- Checks in turn keep a state coherent. -/
theorem Checked.coherent (hwf : env.tree.WellFormed) (hchk : Checked env s s')
    (h : s.Coherent) : s'.Coherent :=
  hchk.preserves h fun depth h hrun => (checkNode_grounded hwf depth h hrun).1

/-! ### Sessions -/

/-- Before the first check a state is coherent if its types are. -/
theorem Blank.coherent (hblank : Blank env bound merged s) (h : s.types.Coherent) : s.Coherent where
  types := h
  error := ⟨_, hblank.error⟩
  arguments hi := by simp [hblank.context] at hi
  parameters hp := by simp [hblank.parameterTypes] at hp
  literals := fun {literal t} => by
    refine ⟨fun hknown => by simp [hblank.literalTypes] at hknown, fun hshape => ?_⟩
    obtain hother | ⟨_, hother⟩ := hblank.shape hshape
    all_goals cases literal <;> simp at hother
  namespaces ht := by
    obtain ⟨n, hn⟩ := hblank.namespaceType ht
    exact has_of_shape hn
  declared ht := by simp [State.declaredType?, hblank.declaredType] at ht
  instances ht := by simp [hblank.instances] at ht
  pending ht := by simp [hblank.pending] at ht

/-- The error type and the global namespace are coherent. -/
theorem initial_coherent (bound : Bindings) : (State.initial bound).types.Coherent := by
  have hempty : TypeTable.Coherent Table.empty :=
    ⟨fun hrow => by simp [Table.get?, Table.empty] at hrow,
      fun _ _ hshape => by simp [shape?, Table.get?, Table.empty] at hshape,
      fun _ _ ht => by simp [union?, shape?, Table.get?, Table.empty] at ht⟩
  have herror : TypeTable.initial.Coherent := hempty.push (.simple rfl rfl)
  exact herror.push (.emptyNamespace (by simp))

/-- A namespace gets a type that fits. -/
theorem createNamespaceType_coherent {u : Unit} (hblank : Blank env bound merged s)
    (h : s.types.Coherent) (hrun : createNamespaceType node name env s = some (u, s')) :
    s'.types.Coherent := by
  rcases createNamespaceType_cases hrun with ⟨rfl, -⟩ | ⟨rfl, -⟩ | ⟨symbol, parent, -, -, hpar, rfl⟩
  · exact h
  · exact h
  · have hinside : ∀ p ∈ some parent, s.types.Has p := fun p hp =>
      Option.some.inj hp ▸ (hblank.coherent h).namespaceType hpar
    have hadded := (hblank.addNamespace (some node) (.make name (some parent))).coherent
      (h.push (.emptyNamespace hinside))
    refine (hadded.fill parent (fun n => .addNamespace n name s.types.nextId)
      fun {place n} hfits => ?_).types
    refine .contents (fun other hother => ?_) (fun {listing _ _} hfind => ?_) fun {key t} hfind => ?_
    · rcases NamespaceType.stored_addNamespace hother with rfl | hother
      · exact has_iff.mp (has_nextId _)
      · exact hfits.stored other hother
    · exact hfits.listed rfl (by cases listing <;> exact hfind)
    · rcases find?_insertIfNew_cases hfind with ⟨rfl, rfl⟩ | hfind
      · exact ⟨.make key (some parent), shape?_push_nextId _, rfl, rfl⟩
      · exact hfits.namespaces rfl hfind

/-- Preparing a program leaves the type table coherent. -/
theorem prepare_coherent {u : Unit} (hwf : env.tree.WellFormed) (hblank : Blank env bound merged s)
    (h : s.types.Coherent) (hrun : prepare env s = some (u, s')) : s'.types.Coherent :=
  prepare_types (P := TypeTable.Coherent) hwf hblank h createNamespaceType_coherent hrun

/-- Whatever is asked of the checker leaves it in a coherent state. -/
theorem Reached.coherent {program : Program} (h : Reached program s) : s.Coherent := by
  have hwf := h.wellFormed
  obtain ⟨paths, rfl | ⟨s₁, hprep, hchk⟩⟩ := h.prepares
  · exact (h.blank paths).coherent (initial_coherent _)
  · exact hchk.coherent hwf (((h.blank paths).prepare hwf hprep).coherent
      (prepare_coherent hwf (h.blank paths) (initial_coherent _) hprep))

section

variable {files : List SourceFile} {paths : List String} {registry : Registry} {designTime : Bool}
  {requests : List Request} {answers : List (Option TypeId)}

/-- Before the first check there are no enums and no members. -/
theorem Blank.not_belongs (hblank : Blank env bound merged s) {id : TypeId} :
    ¬ s.types.Belongs id t := by
  rintro ⟨m, hm, -⟩
  rcases hblank.shape hm with heq | ⟨n, heq⟩ <;> simp at heq

/-- The type graph is well formed at any time between the calls of the checker. Every type that is
mentioned is there, and is what it is mentioned as: properties, operations and declarations stand
under their names in the models, interfaces and namespaces that they belong to, the parameters of an
operation form a model, and a copied property agrees with its source, which is older. The members of
an enum are exactly those that point back to it, and they have different names. -/
theorem type_graph_coherent (h : Performs ⟨.ofFiles files, registry, designTime⟩ requests
      (.initial (.declaring (.ofFiles files) paths)) answers s) :
    (∀ id row, s.types.get? id = some row → s.types.Fits id row) ∧
    ∀ t e, s.types.enum? t = some e → s.types.Enrolled t e.members := by
  refine ⟨fun id row => h.reached.coherent.types.fits, fun t e he => ?_⟩
  obtain ⟨_, merged, s₁, hblank, hchecked⟩ := h.reached.checked
  have hwf := (Tree.ofFiles_complete files).toWellFormed
  have henrolls := (enrolls_evolution hwf).checked hwf hchecked
  refine henrolls.enrolled (by simp) (fun hid => absurd hid hblank.not_belongs) he fun ⟨row, hrow⟩ => ?_
  obtain ⟨shape, hshape, hgrown⟩ := henrolls.frozen.grows.row hrow
  rw [enum?_eq_some_iff, shape?, hshape] at he
  cases he
  have hrowShape : s₁.types.shape? t = some row.shape := by rw [shape?, hrow]; rfl
  rcases hblank.shape hrowShape with heq | ⟨n, heq⟩ <;> rw [heq] at hgrown <;> cases hgrown

end

/-- Notes are sheets with one more property, and a printer takes them over as parameters. The label
of sheets has no implementation. -/
def desks : List SourceFile :=
  [⟨"desks", [.namespaceDecl "Desk" false [
    .enumDecl "Size" [⟨"small", none, []⟩, ⟨"large", some (.string "L"), []⟩, ⟨"small", none, []⟩] [],
    .modelDecl "Sheet" [] none none [.required "size" "Size"]
      [.mk "label" [.reference "Note" []]],
    .modelDecl "Note" [] none (some (.reference "Sheet" []))
      [.property "next" true (.reference "Note" []) none []] [],
    .interfaceDecl "Printer" [] [] [⟨"print", [.spread (.reference "Note" [])],
      .array (.reference "Sheet" []), []⟩] []] []]⟩]

/-- The size of sheets has two members, the size of a note is a copy, and all types fit. -/
theorem type_graph_coherent_desks :
    ∃ answers s, Performs ⟨.ofFiles desks, .empty, false⟩ [.program]
        (.initial (.declaring (.ofFiles desks) ["label"])) answers s ∧
      (∃ id ∈ s.types.ids, (s.types.enum? id).any (·.members.length = 2) = true) ∧
      (∃ id ∈ s.types.ids, (s.types.property? id).any (·.source.isSome) = true) ∧
      (∀ id row, s.types.get? id = some row → s.types.Fits id row) ∧
      ∀ t e, s.types.enum? t = some e → s.types.Enrolled t e.members := by
  obtain ⟨answers, s, hrun, henum, hcopy⟩ := @exists_performs ⟨.ofFiles desks, .empty, false⟩
    (.initial (.declaring (.ofFiles desks) ["label"])) 20 [.program]
    (fun outcome =>
      (∃ id ∈ outcome.2.types.ids, (outcome.2.types.enum? id).any (·.members.length = 2) = true) ∧
      ∃ id ∈ outcome.2.types.ids, (outcome.2.types.property? id).any (·.source.isSome) = true) _
    (by decide +kernel)
  exact ⟨answers, s, hrun, henum, hcopy, type_graph_coherent hrun⟩

end Checking

end ApiSchema
