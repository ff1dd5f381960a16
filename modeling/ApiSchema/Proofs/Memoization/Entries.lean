import ApiSchema.Proofs.Checking.Session

/-!
# Where the type of a declaration is found

The checker keeps the types of a model or an interface in three places: the declared type with its
symbol, its instances by argument list, and both while they are under construction. Here the three
are looked at as one map from argument lists to types, in which the parameters of the declaration
stand for the declared type. `Memoized` says that this map and the rows of the type table that are
built from the declaration are the same, so that there is one row for each argument list.
-/

namespace ApiSchema

open OrderedMap Table Option

variable {target : TypeId} {symbol : SymbolId} {node : NodeId} {key building marks : List TypeId}

namespace TypeTable

variable {types types' : TypeTable} {declaration : NodeId} {arguments : List TypeId} {t : TypeId}

/-- A type is built from a declaration for the given template arguments; what is built with the
parameters left open has none. -/
def Instantiates (types : TypeTable) (declaration : NodeId) (arguments : List TypeId) (t : TypeId) :
    Prop :=
  ∃ row template, types.get? t = some row ∧ row.shape.origin? = some (arguments, template) ∧
    (row.node = some declaration ∨ template = some declaration)

theorem Instantiates.has (h : types.Instantiates declaration arguments t) : types.Has t := by
  obtain ⟨row, template, hrow, -⟩ := h
  exact ⟨row, hrow⟩

theorem Grows.instantiates_iff (hgrows : types.Grows types') (hhas : types.Has t) :
    types'.Instantiates declaration arguments t ↔ types.Instantiates declaration arguments t := by
  obtain ⟨row, hrow⟩ := hhas
  obtain ⟨shape, hrow', hgrown⟩ := hgrows.row hrow
  simp only [Instantiates, hrow, hrow', Option.some.injEq, exists_and_left, exists_eq_left',
    hgrown.origin]

theorem Grows.instantiates (hgrows : types.Grows types')
    (h : types.Instantiates declaration arguments t) :
    types'.Instantiates declaration arguments t :=
  (hgrows.instantiates_iff h.has).mpr h

end TypeTable

theorem NodeKind.symbolKind?_of_isInstantiable {kind : NodeKind} (h : kind.isInstantiable = true) :
    kind.symbolKind? = some .model ∨ kind.symbolKind? = some .interfaceKind := by
  cases kind <;> simp_all [isInstantiable, symbolKind?]

namespace Checking

/-- A declaration and its symbol. -/
structure Subject where
  node : NodeId
  symbol : SymbolId

namespace State

variable (s : State) (tree : Tree) (d : Subject)

/-- The types of the parameters of a declaration, once all of them have been left open. -/
def openKey? (declaration : NodeId) : Option (List TypeId) :=
  (tree.templateParameters declaration).mapM s.parameterTypes.find?

/-- The type that is recorded for a declaration and template arguments: for its own parameters the
declared type, for others an instance. -/
def recorded? (arguments : List TypeId) : Option TypeId :=
  if s.openKey? tree d.node = some arguments then s.declaredType? d.symbol
  else (s.linksOf d.symbol).instances.find? arguments

/-- The type that is found for a declaration and template arguments, under construction or
recorded. -/
def lookup? (arguments : List TypeId) : Option TypeId :=
  (s.pending.find? (d.node, arguments)).or (s.recorded? tree d arguments)

end State

variable {tree : Tree} {d : Subject} {s s' : State} {t : TypeId} {own arguments : List TypeId}

theorem mapM_eq_some_of_imp {α β : Type} {f g : α → Option β} {xs : List α} {ys : List β}
    (hfg : ∀ {x y}, f x = some y → g x = some y) (h : xs.mapM f = some ys) :
    xs.mapM g = some ys := by
  induction xs generalizing ys with
  | nil => exact h
  | cons x xs ih =>
    rw [List.mapM_cons] at h ⊢
    obtain ⟨y, hy, h⟩ := bind_eq_some_iff.mp h
    obtain ⟨rest, hrest, h⟩ := bind_eq_some_iff.mp h
    rw [hfg hy, ih hrest]
    exact h

/-- The key of the open parameters stays what it is. -/
theorem State.openKey?_mono {declaration : NodeId}
    (h : ∀ {p t}, s.parameterTypes.find? p = some t → s'.parameterTypes.find? p = some t)
    (hown : s.openKey? tree declaration = some own) :
    s'.openKey? tree declaration = some own :=
  mapM_eq_some_of_imp h hown

/-- The rows that are built from a declaration are those that are found for its argument lists. -/
structure Memoized (tree : Tree) (d : Subject) (s : State) : Prop where
  consistent : Bindings.Consistent tree s.bindings
  bound : s.bindings.symbolOf? d.node = some d.symbol
  kind : ∃ kind, tree.kind? d.node = some kind ∧ kind.isInstantiable = true
  rows {t : TypeId} {arguments : List TypeId} : s.types.Instantiates d.node arguments t →
    ∃ own, s.openKey? tree d.node = some own ∧
      s.lookup? tree d (if arguments = [] then own else arguments) = some t
  entries {arguments : List TypeId} {t : TypeId} : s.lookup? tree d arguments = some t →
    ∃ own, s.openKey? tree d.node = some own ∧ (arguments = [] → own = []) ∧
      s.types.Instantiates d.node (if arguments = own then [] else arguments) t
  declared {t : TypeId} : s.declaredType? d.symbol = some t →
    ∃ own, s.openKey? tree d.node = some own
  exclusive {arguments : List TypeId} {t : TypeId} :
    s.pending.find? (d.node, arguments) = some t → s.recorded? tree d arguments = none
  template {own : List TypeId} : tree.templateParameters d.node ≠ [] →
    s.openKey? tree d.node = some own →
    (s.linksOf d.symbol).instances.find? own = s.declaredType? d.symbol
  references {r : Reference} : r ∈ s.references → r.declaration = d.node →
    s.lookup? tree d r.arguments = some r.type

namespace Memoized

/-- A change that leaves the map alone. -/
theorem congr (h : Memoized tree d s) (hbinds : s'.bindings = s.bindings)
    (hkey : ∀ {own}, s.openKey? tree d.node = some own → s'.openKey? tree d.node = some own)
    (hlookup : ∀ arguments, s'.lookup? tree d arguments = s.lookup? tree d arguments)
    (hgrows : s.types.Grows s'.types)
    (hrows : ∀ {arguments t}, s'.types.Instantiates d.node arguments t → s.types.Has t)
    (hrefs : ∀ r ∈ s'.references, r.declaration = d.node → r ∈ s.references)
    (hdecl : ∀ {t}, s'.declaredType? d.symbol = some t →
      ∃ own, s'.openKey? tree d.node = some own)
    (hexclusive : ∀ {arguments t}, s'.pending.find? (d.node, arguments) = some t →
      s'.recorded? tree d arguments = none)
    (htempl : ∀ {own}, tree.templateParameters d.node ≠ [] →
      s'.openKey? tree d.node = some own →
      (s'.linksOf d.symbol).instances.find? own = s'.declaredType? d.symbol) :
    Memoized tree d s' where
  consistent := hbinds ▸ h.consistent
  bound := hbinds ▸ h.bound
  kind := h.kind
  rows hrow := by
    obtain ⟨own, hown, hfound⟩ := h.rows ((hgrows.instantiates_iff (hrows hrow)).mp hrow)
    exact ⟨own, hkey hown, (hlookup _).trans hfound⟩
  entries hfound := by
    obtain ⟨own, hown, hnil, hrow⟩ := h.entries ((hlookup _).symm.trans hfound)
    exact ⟨own, hkey hown, hnil, hgrows.instantiates hrow⟩
  declared := hdecl
  exclusive := hexclusive
  template := htempl
  references hr hdecn := by
    rw [hlookup]
    exact h.references (hrefs _ hr hdecn) hdecn

/-- If the parameters have not been left open, nothing is found. -/
theorem lookup_eq_none (h : Memoized tree d s) (hkey : s.openKey? tree d.node = none)
    (arguments : List TypeId) : s.lookup? tree d arguments = none := by
  refine eq_none_iff_forall_ne_some.mpr fun t ht => ?_
  obtain ⟨own, hown, -⟩ := h.entries ht
  simp [hkey] at hown

/-- A change that has nothing to do with the declaration but that parameters may be left open. -/
theorem transfer (h : Memoized tree d s) (hbinds : s'.bindings = s.bindings)
    (hpend : ∀ key, s'.pending.find? (d.node, key) = s.pending.find? (d.node, key))
    (hlinks : s'.linksOf d.symbol = s.linksOf d.symbol)
    (hparams : ∀ {p t}, s.parameterTypes.find? p = some t →
      s'.parameterTypes.find? p = some t)
    (hgrows : s.types.Grows s'.types)
    (hrows : ∀ {arguments t}, s'.types.Instantiates d.node arguments t → s.types.Has t)
    (hrefs : ∀ r ∈ s'.references, r.declaration = d.node → r ∈ s.references) :
    Memoized tree d s' := by
  have hkey : ∀ {own}, s.openKey? tree d.node = some own → s'.openKey? tree d.node = some own :=
    State.openKey?_mono hparams
  have hdecl : s'.declaredType? d.symbol = s.declaredType? d.symbol := by
    rw [State.declaredType?, hlinks, State.declaredType?]
  have hrec : ∀ arguments, s'.recorded? tree d arguments = s.recorded? tree d arguments := by
    intro arguments
    rw [State.recorded?, State.recorded?, hdecl, hlinks]
    cases hopen : s.openKey? tree d.node with
    | some own => rw [hkey hopen]
    | none =>
      -- Nothing was recorded under a key that is new.
      have hnone : (s.linksOf d.symbol).instances.find? arguments = none := by
        have hlookup := h.lookup_eq_none hopen arguments
        rw [State.lookup?, or_eq_none_iff, State.recorded?, hopen] at hlookup
        simpa using hlookup.2
      have hundeclared : s.declaredType? d.symbol = none := by
        refine eq_none_iff_forall_ne_some.mpr fun t ht => ?_
        obtain ⟨own, hown⟩ := h.declared ht
        simp [hopen] at hown
      rw [hundeclared, hnone]
      simp
  have hlookup : ∀ arguments, s'.lookup? tree d arguments = s.lookup? tree d arguments := by
    intro arguments
    rw [State.lookup?, State.lookup?, hpend, hrec]
  refine h.congr hbinds hkey hlookup hgrows hrows hrefs (fun ht => ?_) (fun ht => ?_)
    fun {own} hparam hown => ?_
  · obtain ⟨own, hown⟩ := h.declared (hdecl.symm.trans ht)
    exact ⟨own, hkey hown⟩
  · rw [hrec]
    exact h.exclusive ((hpend _).symm.trans ht)
  · rw [hlinks, hdecl]
    cases hopen : s.openKey? tree d.node with
    | some own' =>
      obtain rfl := mem_unique (hkey hopen) hown
      exact h.template hparam hopen
    | none =>
      have hfound := hrec own
      rw [State.recorded?, if_pos hown, State.recorded?, hopen, if_neg (by simp), hdecl] at hfound
      exact hfound.symm

/-! ### Changes that have nothing to do with the declaration -/

section

variable (h : Memoized tree d s)

include h

theorem quiet (hquiet : Quiet s s') : Memoized tree d s' := by
  rw [hquiet.eq]
  exact { h with }

theorem raise (cause : InternalError) : Memoized tree d (s.raise cause) :=
  { h with }

theorem decorated {applications : List DecoratorApplication}
    (hdec : Decorated target applications s s') :
    Memoized tree d s' := by
  rw [hdec.eq]
  exact { h with }

theorem finished {finish : Bool} (hfin : Finished finish target s s') :
    Memoized tree d s' := by
  rcases hfin with rfl | ⟨-, hdec⟩
  · exact h
  · exact h.decorated hdec

/-- Adding a row that is built from something else. -/
theorem addRow {row : TypeRecord}
    (hrow : ∀ {arguments template}, row.shape.origin? = some (arguments, template) →
      row.node ≠ some d.node ∧ template ≠ some d.node) :
    Memoized tree d (s.addRow row) := by
  refine h.transfer rfl (fun _ => rfl) rfl id (.push _ _) ?_ fun _ hr _ => hr
  rintro arguments t ⟨new, template, hget, horigin, hnode⟩
  rcases get?_push_cases (t := s.types) hget with ⟨-, rfl⟩ | hold
  · exact absurd hnode (not_or.mpr (hrow horigin))
  · exact ⟨_, hold⟩

theorem modifyShape {id : TypeId} {f : TypeShape → TypeShape}
    (hgrown : ∀ {shape}, s.types.shape? id = some shape → shape.Grown (f shape)) :
    Memoized tree d (s.modifyTypes fun types => types.modifyShape id f) := by
  refine h.transfer rfl (fun _ => rfl) rfl (fun hp => hp) (.modifyShape hgrown) (fun hrow => ?_)
    fun _ hr _ => hr
  have hlt := TypeTable.has_iff.mp hrow.has
  exact TypeTable.has_iff.mpr (Nat.lt_of_lt_of_eq hlt (size_modify _ _ _))

theorem filled (hfilled : Filled s s') : Memoized tree d s' := by
  obtain rfl | ⟨id, f, hf, rfl⟩ := hfilled
  · exact h
  · exact h.modifyShape fun {shape} _ => .fill hf shape

theorem modifyLinks {f : Links → Links} (hsym : symbol ≠ d.symbol) :
    Memoized tree d (s.modifyLinks symbol f) := by
  refine h.transfer rfl (fun _ => rfl) ?_ (fun hp => hp) (.refl _) (fun hrow => hrow.has)
    fun _ hr _ => hr
  rw [linksOf_modifyLinks, if_neg hsym.symm]

/-- The symbols of other nodes are others. -/
theorem symbol_ne (hnode : node ≠ d.node) (hsym : s.bindings.symbolOf? node = some symbol) :
    symbol ≠ d.symbol := by
  rintro rfl
  obtain ⟨kind, hkind, hable⟩ := h.kind
  refine hnode (h.consistent.eq_of_symbolOf h.bound hkind (fun heq => ?_) hsym)
  simpa [heq] using NodeKind.symbolKind?_of_isInstantiable hable

/-- Recording the type of another declaration. -/
theorem declare (hnode : node ≠ d.node) (known type : TypeId) (isTemplate : Bool)
    (key : List TypeId) :
    Memoized tree d (s.declare (s.bindings.symbolOf? node) known type isTemplate key) := by
  cases hsym : s.bindings.symbolOf? node with
  | none => exact h
  | some symbol =>
    rw [State.declare]
    exact h.modifyLinks (h.symbol_ne hnode hsym)

/-- Marking another declaration as under construction, or no longer. -/
theorem repend {pending : OrderedMap (NodeId × List TypeId) TypeId}
    (hpend : ∀ key, pending.find? (d.node, key) = s.pending.find? (d.node, key)) :
    Memoized tree d { s with pending, building } :=
  h.transfer rfl hpend rfl (fun hp => hp) (.refl _) (fun hrow => hrow.has) fun _ hr _ => hr

end

/-! ### Changes to the map -/

section

variable (h : Memoized tree d s) (hown : s.openKey? tree d.node = some own)

include h hown

/-- A type that is not found yet is entered and marked as under construction. -/
theorem opened {stub : TypeShape} {template : Option NodeId} (hkey : key = [] → own = [])
    (hnone : s.lookup? tree d key = none)
    (horigin : stub.origin? = some (if key = own then [] else key, template)) :
    Memoized tree d (s.opened d.node key stub marks) := by
  have hgrows : s.types.Grows (s.opened d.node key stub marks).types := .push _ _
  have hopen : (s.opened d.node key stub marks).openKey? tree d.node = some own := hown
  obtain ⟨hpend, hrec⟩ := or_eq_none_iff.mp hnone
  have hlookup : ∀ arguments, (s.opened d.node key stub marks).lookup? tree d arguments =
      if arguments = key then some s.types.nextId else s.lookup? tree d arguments := by
    intro arguments
    rw [State.lookup?, State.opened, find?_insert]
    by_cases heq : arguments = key
    · simp [heq]
    · simp only [Prod.mk.injEq, true_and, if_neg heq]
      rfl
  have hnew : (s.opened d.node key stub marks).types.Instantiates d.node
      (if key = own then [] else key) s.types.nextId :=
    ⟨⟨some d.node, stub⟩, template, get?_push_nextId _ _, horigin, Or.inl rfl⟩
  refine ⟨h.consistent, h.bound, h.kind, fun {t arguments} hrow => ?_, fun {arguments t} hfound => ?_,
    fun {t} ht => h.declared ht, fun {arguments t} ht => ?_, fun hparams hown =>
      h.template hparams hown, fun {r} hr hdecn => ?_⟩
  · refine ⟨own, hopen, ?_⟩
    by_cases hhas : s.types.Has t
    · obtain ⟨own', hown', hfound⟩ := h.rows ((hgrows.instantiates_iff hhas).mp hrow)
      obtain rfl := mem_unique hown hown'
      rw [hlookup, if_neg fun heq => by simp [heq, hnone] at hfound]
      exact hfound
    · obtain ⟨row, template', hget, horigin', -⟩ := hrow
      rcases get?_push_cases (t := s.types) hget with ⟨rfl, rfl⟩ | hold
      · obtain ⟨rfl, -⟩ := Prod.mk.inj (mem_unique horigin horigin')
        rw [hlookup]
        by_cases heq : key = own
        · simp [heq]
        · have hne : key ≠ [] := fun hnil => heq (hnil.trans (hkey hnil).symm)
          simp [heq, hne]
      · exact absurd ⟨_, hold⟩ hhas
  · rw [hlookup] at hfound
    split at hfound
    next heq =>
      subst heq
      cases hfound
      exact ⟨own, hopen, hkey, hnew⟩
    · obtain ⟨own', hown', hnil, hrow⟩ := h.entries hfound
      exact ⟨own', hown', hnil, hgrows.instantiates hrow⟩
  · rw [State.opened, find?_insert] at ht
    split at ht
    next heq =>
      obtain ⟨-, rfl⟩ := Prod.mk.inj heq
      exact hrec
    · exact h.exclusive ht
  · have hfound := h.references hr hdecn
    rw [hlookup, if_neg fun heq => by simp [heq, hnone] at hfound]
    exact hfound

/-- What is under construction is recorded. -/
theorem record (hpend : s.pending.find? (d.node, key) = some t)
    (heq : s' = { s with links := s'.links, pending := s.pending.erase (d.node, key) })
    (hrec : ∀ arguments, s'.recorded? tree d arguments =
      if arguments = key then some t else s.recorded? tree d arguments)
    (htempl : tree.templateParameters d.node ≠ [] →
      (s'.linksOf d.symbol).instances.find? own = s'.declaredType? d.symbol) :
    Memoized tree d s' := by
  have hkey : s'.openKey? tree d.node = s.openKey? tree d.node := by rw [heq]; rfl
  have herase : ∀ arguments, s'.pending.find? (d.node, arguments) =
      if arguments = key then none else s.pending.find? (d.node, arguments) := by
    intro arguments
    rw [heq, find?_erase]
    simp
  have htypes : s'.types = s.types := (congrArg State.types heq :)
  have hbinds : s'.bindings = s.bindings := (congrArg State.bindings heq :)
  refine h.congr hbinds (fun hopen => hkey.trans hopen) (fun arguments => ?_)
    (htypes ▸ .refl _) (fun hrow => htypes ▸ hrow.has) (fun r hr _ => ?_)
    (fun _ => ⟨own, hkey.trans hown⟩) (fun {arguments u} hu => ?_) fun {own'} hparams hown' => ?_
  · rw [State.lookup?, State.lookup?, herase, hrec]
    split
    next hsame =>
      rw [hsame, hpend]
      rfl
    · rfl
  · rw [heq] at hr
    exact hr
  · rw [herase] at hu
    rw [hrec]
    split at hu
    · simp at hu
    next hne =>
      rw [if_neg hne]
      exact h.exclusive hu
  · obtain rfl := mem_unique hown (hkey.symm.trans hown')
    exact htempl hparams

/-- What is under construction for the open parameters is recorded as the declared type. -/
theorem close (hpend : s.pending.find? (d.node, own) = some t) :
    Memoized tree d { s.declare (some d.symbol) t t
      (!(tree.templateParameters d.node).isEmpty) own with
        pending := s.pending.erase (d.node, own) } := by
  have hlinks := linksOf_modifyLinks s d.symbol d.symbol fun links =>
    { links with
      declaredType := some t
      instances := if !(tree.templateParameters d.node).isEmpty then links.instances.insert own t
        else links.instances }
  rw [if_pos rfl] at hlinks
  refine h.record hown hpend rfl (fun arguments => ?_) fun hparams => ?_
  · have hopen : (s.declare (some d.symbol) t t
      (!(tree.templateParameters d.node).isEmpty) own).openKey? tree d.node = some own := hown
    refine (show _ = State.recorded? (s.declare (some d.symbol) t t _ own) tree d arguments from
      rfl).trans ?_
    rw [State.recorded?, State.recorded?, hopen, hown, State.declaredType?, State.declare, hlinks]
    by_cases heq : arguments = own
    · simp [heq]
    · have hne : own ≠ arguments := fun h => heq h.symm
      simp only [Option.some.injEq, if_neg hne, if_neg heq]
      split
      · rw [find?_insert, if_neg heq]
      · rfl
  · refine (congrArg (fun links => links.instances.find? own) hlinks).trans ?_
    refine Eq.trans ?_ (congrArg Links.declaredType hlinks).symm
    simp [hparams]

/-- What is under construction for other arguments is recorded as an instance. -/
theorem closeInstance (hne : arguments ≠ own)
    (hpend : s.pending.find? (d.node, arguments) = some t) :
    Memoized tree d ({ s with pending := s.pending.erase (d.node, arguments) }.addInstance d.symbol
      arguments t) := by
  have hlinks := linksOf_addInstance { s with pending := s.pending.erase (d.node, arguments) } d.symbol
    arguments t
  refine h.record hown hpend rfl (fun other => ?_) fun hparams => ?_
  · have hopen : ({ s with pending := s.pending.erase (d.node, arguments) }.addInstance d.symbol
        arguments t).openKey? tree d.node = some own := hown
    rw [State.recorded?, State.recorded?, hopen, hown, State.declaredType?, hlinks]
    by_cases heq : other = own
    · have hother : other ≠ arguments := fun h => hne (h.symm.trans heq)
      simp only [heq, if_true]
      rw [if_neg (heq ▸ hother)]
      rfl
    · have hother : own ≠ other := fun h => heq h.symm
      simp only [Option.some.injEq, if_neg hother]
      exact find?_insert _ _ _ _
  · rw [State.declaredType?, hlinks, find?_insert, if_neg hne.symm]
    exact h.template hparams hown

end

end Memoized

end Checking

end ApiSchema
