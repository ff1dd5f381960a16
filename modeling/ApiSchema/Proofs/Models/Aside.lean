import ApiSchema.Proofs.Checking.Evolution

/-!
# Changes that leave models alone

Most of what a check does has nothing to do with models: it adds other types, records declarations
and reports. An invariant about models that survives all this has to be shown only for
intersections, for model statements and for model expressions. Interfaces and enums, which are built
piece by piece too, are no models.
-/

namespace ApiSchema

namespace TypeShape

/-- Whether a type is a model. -/
def isModel : TypeShape → Bool
  | .model _ => true
  | _ => false

theorem Grown.isModel {shape shape' : TypeShape} (h : shape.Grown shape') :
    shape'.isModel = shape.isModel := by
  cases h <;> rfl

end TypeShape

namespace TypeTable

variable {types types' : TypeTable} {id : TypeId} {m : ModelType} {row : TypeRecord}

theorem model?_eq_none_of_isModel {shape : TypeShape} (hshape : types.shape? id = some shape)
    (h : shape.isModel = false) : types.model? id = none := by
  rw [model?, hshape]
  cases shape <;> simp_all [TypeShape.isModel]

theorem model?_push_nextId (h : row.shape = .model m) :
    model? (types.push row) types.nextId = some m :=
  model?_eq_some_iff.mpr ((shape?_push_nextId row).trans (congrArg some h))

/-- A type that is no model leaves the models alone. -/
theorem model?_push (h : row.shape.isModel = false) (id : TypeId) :
    model? (types.push row) id = types.model? id := by
  by_cases hid : id = types.nextId
  · subst hid
    have hnone : types.shape? types.nextId = none := by simp [shape?]
    rw [model?_eq_none_of_isModel (shape?_push_nextId row) h, model?, hnone]
  · rw [model?, model?, shape?_push, if_neg hid]

/-- So does a change that is not one of a model. -/
theorem model?_modifyShape {f : TypeShape → TypeShape}
    (hgrown : ∀ {shape}, types.shape? id = some shape → shape.Grown (f shape))
    (hkept : ∀ {shape}, types.shape? id = some shape → shape.isModel = true → f shape = shape)
    (other : TypeId) : (types.modifyShape id f).model? other = types.model? other := by
  by_cases hother : other = id
  · subst hother
    cases hshape : types.shape? other with
    | none => rw [model?, model?, shape?_modifyShape, if_pos rfl, hshape, Option.map_none]
    | some shape =>
      have hshape' : (types.modifyShape other f).shape? other = some (f shape) := by
        rw [shape?_modifyShape, if_pos rfl, hshape, Option.map_some]
      cases hmodel : shape.isModel with
      | true => rw [model?, model?, hshape', hkept hshape hmodel, hshape]
      | false =>
        rw [model?_eq_none_of_isModel hshape hmodel,
          model?_eq_none_of_isModel hshape' ((hgrown hshape).isModel.trans hmodel)]
  · rw [model?, model?, shape?_modifyShape, if_neg hother]

end TypeTable

namespace Checking

variable {env : Environment} {s s' s'' s₁ : State} {target t : TypeId}

/-- In the later state names mean the same as before, there are all types that there were, and what
was noted about references still is. -/
structure Predates (s s' : State) : Prop where
  bindings : s'.bindings = s.bindings
  mergedSymbols : s'.mergedSymbols = s.mergedSymbols
  grows : s.types.Grows s'.types
  references : s.references ⊆ s'.references

theorem Frame.predates {own : Option TypeId} (h : Frame own s s') : Predates s s' :=
  { h with references := h.references.subset }

theorem Predates.trans (h : Predates s s') (h' : Predates s' s'') : Predates s s'' :=
  ⟨h'.bindings.trans h.bindings, h'.mergedSymbols.trans h.mergedSymbols, h.grows.trans h'.grows,
    List.Subset.trans h.references h'.references⟩

/-- Between the states nothing changed that has to do with models. -/
structure Aside (s s' : State) : Prop extends Predates s s' where
  model (id : TypeId) : s'.types.model? id = s.types.model? id
  building : s'.building = s.building
  readings : s'.readings = s.readings
  diagnostics : s.diagnostics.toList <+: s'.diagnostics.toList

namespace Aside

theorem refl (s : State) : Aside s s :=
  ⟨(Frame.refl none s).predates, fun _ => rfl, rfl, rfl, List.prefix_rfl⟩

theorem trans (h : Aside s s') (h' : Aside s' s'') : Aside s s'' :=
  ⟨h.toPredates.trans h'.toPredates, fun id => (h'.model id).trans (h.model id),
    h'.building.trans h.building, h'.readings.trans h.readings, h.diagnostics.trans h'.diagnostics⟩

theorem quiet (h : Quiet s s') : Aside s s' := by
  have hprefix := h.diagnostics
  rw [h.eq]
  exact { refl s with diagnostics := hprefix }

theorem decorated {applications : List DecoratorApplication}
    (h : Decorated target applications s s') : Aside s s' := by
  have hprefix := h.diagnostics
  rw [h.eq]
  exact { refl s with diagnostics := hprefix }

theorem finished {finish : Bool} (h : Finished finish target s s') : Aside s s' := by
  rcases h with rfl | ⟨-, h⟩
  · exact .refl _
  · exact .decorated h

theorem addRow {row : TypeRecord} (h : row.shape.isModel = false) : Aside s (s.addRow row) :=
  { refl s with grows := .push _ _, model := TypeTable.model?_push h }

theorem modifyShape {id : TypeId} {f : TypeShape → TypeShape}
    (hgrown : ∀ {shape}, s.types.shape? id = some shape → shape.Grown (f shape))
    (hkept : ∀ {shape}, s.types.shape? id = some shape → shape.isModel = true → f shape = shape) :
    Aside s (s.modifyTypes fun types => types.modifyShape id f) :=
  { refl s with
    grows := .modifyShape hgrown
    model := TypeTable.model?_modifyShape hgrown hkept }

theorem modifyNamespace (id : TypeId) {f : NamespaceType → NamespaceType}
    (hf : ∀ n : NamespaceType, n.Extends (f n)) :
    Aside s (s.modifyTypes fun types => types.modifyNamespace id f) := by
  refine modifyShape (fun {shape} _ => .fill hf shape) fun {shape} _ hmodel => ?_
  cases shape <;> first | rfl | simp [TypeShape.isModel] at hmodel

theorem enlist (s : State) (tree : Tree) (node : NodeId) (t : TypeId) :
    Aside s (s.enlist tree node t) := by
  obtain heq | ⟨id, f, hf, heq⟩ := s.enlist_filled tree node t <;> rw [heq]
  · exact .refl _
  · exact .modifyNamespace id hf

theorem declare (s : State) (symbol : Option SymbolId) (known type : TypeId) (isTemplate : Bool)
    (key : List TypeId) : Aside s (s.declare symbol known type isTemplate key) := by
  rw [State.declare_eq]
  exact { refl s with }

theorem closed {node : NodeId} {key : List TypeId} {isTemplate instantiating : Bool}
    (h : Closed env.tree node key t isTemplate instantiating s s') : Aside s s' := by
  cases h with
  | instantiated => exact { refl s with }
  | declared heq =>
    have haside := heq ▸ (declare s (s.bindings.symbolOf? node) t t isTemplate key).trans
      (enlist _ env.tree node t)
    exact { haside with }

end Aside

/-! ### Invariants about models -/

variable {J : State → Prop}

/-- What survives changes that leave models alone, and intersections, survives every single
change. -/
theorem Stepwise.ofAside {own : Option TypeId} (haside : ∀ {s s' : State}, Aside s s' → J s → J s')
    (hassembled : ∀ {s : State} {known : List TypeId} {node : NodeId} {operands : List NodeId}
      {properties : OrderedMap String TypeId},
      env.tree.kind? node = some (.intersectionExpression operands) →
      Named s.types known properties → J s →
      J (s.addRow ⟨some node, .model { ModelType.anonymous with properties }⟩)) :
    Stepwise env own fun s s' => J s → J s' where
  refl _ := id
  trans h h' := h' ∘ h
  quiet h := haside (.quiet h)
  raised _ := haside { Aside.refl _ with }
  added := fun {s s' row finish} hplain _ _ hfin =>
    have hnot : row.shape.isModel = false := by
      cases hshape : row.shape <;> simp_all [TypeShape.isModel]
    haside ((Aside.addRow hnot).trans (.finished hfin))
  assembled hkind hnamed := hassembled hkind hnamed
  literal s node literal _ :=
    have hadded : Aside s (s.addRow ⟨some node, literal.shape⟩) :=
      .addRow (by cases literal <;> rfl)
    haside { hadded with }
  parameter := fun {s p} _ =>
    have hadded : Aside s (s.addRow ⟨some p, .templateParameter⟩) := .addRow rfl
    haside { hadded with }
  intrinsic _ _ := haside ((Aside.addRow rfl).trans (.declare _ _ _ _ _ _))
  reference s _ := haside { Aside.refl s with references := List.subset_cons_self _ _ }
  instantiated s _ _ _ := haside { Aside.refl s with }
  within := fun {s s₁ context} _ _ hinside hs =>
    haside (s := s₁) { Aside.refl s₁ with } (hinside (haside (s := s) { Aside.refl s with } hs))

section

variable (hwf : env.tree.WellFormed) (hstepwise : ∀ own, Stepwise env own fun s s' => J s → J s')
  (haside : ∀ {s s' : State}, Aside s s' → J s → J s')
  (hnote : ∀ {check : Check} {s : State} {reading : Reading} {shape : TypeShape},
    Relates env (fun s s' => J s → J s') check →
    reading.AnsweredBy env check (some reading.reader) s →
    s.types.shape? reading.reader = some shape → shape.isModel = false → J s →
    J { s with readings := reading :: s.readings })

include hstepwise haside hnote

/-- It survives the construction of what is no model. -/
theorem Stepwise.ofOther {check : Check} {template : Option NodeId} {floor : Nat}
    {known : List TypeId} {shape : TypeShape}
    (hcheck : Relates env (fun s s' => J s → J s') check)
    (hshape : s.types.shape? t = some shape) (hnot : shape.isModel = false)
    (hcomps : Completes env check template t floor s s₁ s' known) : J s → J s' := by
  have hstays : ∀ {s₁ : State}, Frame (some t) s s₁ →
      ∃ shape₁, s₁.types.shape? t = some shape₁ ∧ shape₁.isModel = false := by
    intro s₁ hframe
    obtain ⟨shape₁, hshape₁, hgrown⟩ := hframe.grows.shape hshape
    exact ⟨shape₁, hshape₁, hgrown.isModel.trans hnot⟩
  obtain ⟨finish, hfin, -⟩ := hcomps.finished
  refine haside (.finished hfin) ∘ (hstepwise _).ofLeads hcheck
    (fun {id s₁ known f} hown hframe hamended => ?_) (fun {s₁ reading} hown hframe hanswered => ?_)
    hcomps.filled
  · cases hown
    obtain ⟨shape₁, hshape₁, hnot₁⟩ := hstays hframe
    refine haside (.modifyShape (fun hshape₂ => (hamended hshape₂).grown) fun hshape₂ hmodel => ?_)
    obtain rfl := Option.mem_unique hshape₁ hshape₂
    simp [hnot₁] at hmodel
  · obtain ⟨shape₁, hshape₁, hnot₁⟩ := hstays hframe
    cases hown
    exact hnote hcheck hanswered hshape₁ hnot₁

include hwf

/-- An invariant about models holds after all checks, if it survives changes that leave models
alone, the construction of models and what is noted for types that are no models. -/
theorem Evolution.ofAside
    (hmodel : ∀ {check : Check} {node : NodeId} {s s' : State} {key : List TypeId}
      {parts : ModelNode} {m : ModelType},
      Relates env (fun s s' => J s → J s') check →
      env.tree.kind? node = some (.modelStatement parts) → m.properties = .empty → m.base = none →
      buildModel check node parts s.types.nextId env
        (s.opened node key (.model m) [s.types.nextId]) = some ((), s') →
      J s → J { s' with building := s.building })
    (hexpr : ∀ {check : Check} {node : NodeId} {s s' : State} {members : List NodeId},
      Relates env (fun s s' => J s → J s') check →
      env.tree.kind? node = some (.modelExpression members) →
      checkMembers check s.types.nextId node members env (s.drafted node) = some ((), s') →
      J s → J { s' with building := s.building }) :
    Evolution env fun s s' => J s → J s' := by
  refine { hstepwise none with
    construct := ?_
    expression := fun hcheck hkind => hexpr hcheck hkind
    enum := ?_
    operation := ?_
    aliased := ?_
    contents := ?_ }
  · intro check node s s₁ s₂ s' key stub marks hcheck _ _ hkey _ _ hbuilt hclosed hs
    refine haside (.closed hclosed) ?_
    have hbuilding := (hbuilt.frame_own hwf hcheck.framed).building
    obtain ⟨_, hcomps⟩ := hbuilt.completes hwf hcheck.framed
    cases hbuilt with
    | model hkind hprops hbase hbuild =>
      exact hmodel hcheck hkind hprops hbase hbuild (hkey hs)
    | @interface parts i _ _ hkind hempty hbuild =>
      have hadded : Aside s₁ (s₁.addRow ⟨some node, .interfaceType i⟩) := .addRow rfl
      have hopened : Aside s₁ (s₁.opened node key (.interfaceType i) []) := { hadded with }
      rw [show s₁.building = s₂.building from hbuilding.symm]
      exact Stepwise.ofOther hstepwise haside hnote hcheck (opened_shape _ _ _ _) rfl hcomps
        (haside hopened (hkey hs))
  · intro check node s s₁ s₂ s₃ _ parts e _ hcheck _ _ hbefore _ _ _ hafter hs
    exact haside (.enlist _ _ _ _) (Stepwise.ofOther hstepwise haside hnote hcheck
      (entered_shape _ _) rfl hafter
        (haside ((Aside.addRow rfl).trans (.declare _ _ _ _ _ _)) (hbefore hs)))
  · intro node s s₁ s₂ parts operation _ _ _ _ hbefore _ hfin hs
    exact haside ((Aside.addRow rfl).trans ((Aside.finished hfin).trans
      ((Aside.declare _ _ _ _ _ _).trans (.enlist _ _ _ _)))) (hbefore hs)
  · intro check node s s₁ s₂ t parts key hcheck _ _ hkey hvalue hs
    have hopened : J (s₁.openAlias (node, key)) := haside (s := s₁) { Aside.refl s₁ with } (hkey hs)
    have hclosed : J (s₂.leaveAlias (node, key)) :=
      haside (s := s₂) { Aside.refl s₂ with } (hcheck.related hvalue hopened)
    dsimp only [State.closeAlias]
    split
    · exact hclosed
    · exact haside (.declare _ _ _ _ _ _) hclosed
  · intro check node s s₁ s₂ s' t parts decorators hcheck _ _ _ hbefore hdec hvisits hs
    have hmarked : Aside s (s.visiting node) := { Aside.refl s with }
    exact (hstepwise none).ofVisits hcheck hvisits (haside ((Aside.modifyNamespace _ fun n =>
      .decorate n _).trans (.decorated hdec)) (hbefore (haside hmarked hs)))

end

end Checking

end ApiSchema
