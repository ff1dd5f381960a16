import ApiSchema.Proofs.Checking.Evolution

/-!
# What decorators see

A check writes to no type but namespaces and the one that it is constructing itself, and it runs
decorators on a type after its last change of it. What a decorator saw of its target, unless that is
a namespace, is therefore what the target still is at any later time.
-/

namespace ApiSchema

/-- Between the tables nothing changed but `own` and the namespaces, which were extended. -/
structure TypeTable.Frozen (own : Option TypeId) (types types' : TypeTable) : Prop where
  grows : types.Grows types'
  kept {id : TypeId} {row : TypeRecord} : types.get? id = some row → own ≠ some id →
    row.shape.isNamespace = false → types'.get? id = some row

namespace TypeTable.Frozen

variable {own : Option TypeId} {types types' types'' : TypeTable}

theorem refl (own : Option TypeId) (types : TypeTable) : types.Frozen own types :=
  ⟨.refl _, fun h _ _ => h⟩

theorem trans (h : types.Frozen own types') (h' : types'.Frozen own types'') :
    types.Frozen own types'' :=
  ⟨h.grows.trans h'.grows, fun hrow hown hshape => h'.kept (h.kept hrow hown hshape) hown hshape⟩

theorem push (own : Option TypeId) (types : TypeTable) (row : TypeRecord) :
    types.Frozen own (Table.push types row) :=
  ⟨.push _ _, fun hrow _ _ => (get?_push_of_has ⟨_, hrow⟩).trans hrow⟩

theorem fill (own : Option TypeId) (types : TypeTable) (id : TypeId)
    {f : NamespaceType → NamespaceType} (hf : ∀ n : NamespaceType, n.Extends (f n)) :
    types.Frozen own (types.modifyNamespace id f) := by
  refine ⟨.modifyShape fun {shape} _ => .fill hf shape, fun {other row} hrow _ hshape => ?_⟩
  rw [modifyNamespace, get?_modifyShape]
  split
  · rw [hrow, Option.map_some]
    obtain ⟨node, shape⟩ := row
    cases shape <;> simp_all
  · exact hrow

/-- A namespace stays a namespace. -/
theorem namespaceType (h : types.Frozen own types') {id : TypeId} {node : Option NodeId}
    {n : NamespaceType} (hrow : types.get? id = some ⟨node, .namespaceType n⟩) :
    ∃ n', types'.get? id = some ⟨node, .namespaceType n'⟩ ∧ n.Extends n' := by
  obtain ⟨shape, hrow', hgrown⟩ := h.grows.row hrow
  cases hgrown with
  | same => exact ⟨n, hrow', .refl n⟩
  | contents hext => exact ⟨_, hrow', hext⟩

end TypeTable.Frozen

namespace Checking

variable {own : Option TypeId} {s s' s₁ s₂ : State} {t : TypeId}

theorem Frame.frozen (h : Frame own s s') : s.types.Frozen own s'.types := ⟨h.grows, h.kept⟩

/-- The types of namespaces are namespaces. -/
def State.Located (s : State) : Prop :=
  ∀ {symbol : SymbolId} {t : TypeId}, (s.linksOf symbol).namespaceType = some t →
    ∃ n, s.types.shape? t = some (.namespaceType n)

/-- Between the states decorators were run, each on a namespace or on a type that was not there
before and that still is what the decorator saw. -/
def Shows (s s' : State) : Prop :=
  ∃ new, s'.attempts = s.attempts ++ new ∧ ∀ a ∈ new, ∃ row, a.seen = some row ∧
    (row.shape.isNamespace = true ∨ ¬ s.types.Has a.target ∧ s'.types.get? a.target = some row)

theorem Shows.of_attempts (h : s'.attempts = s.attempts) : Shows s s' := ⟨[], by simp [h], by simp⟩

/-- Types are frozen between the states, and decorators have seen them as they are. -/
structure Discloses (own : Option TypeId) (s s' : State) : Prop where
  frozen : s.types.Frozen own s'.types
  namespaces (symbol : SymbolId) :
    (s'.linksOf symbol).namespaceType = (s.linksOf symbol).namespaceType
  shows : (∀ id, own = some id → s.types.Has id) → s.Located → Shows s s'

namespace Discloses

theorem of_frame (h : Frame own s s') (hatts : s'.attempts = s.attempts) : Discloses own s s' :=
  ⟨h.frozen, h.namespaces, fun _ _ => .of_attempts hatts⟩

/-- What is not about types does not matter. -/
theorem of_types (htypes : s'.types = s.types) (hlinks : s'.links = s.links)
    (hatts : s'.attempts = s.attempts) : Discloses own s s' :=
  ⟨htypes ▸ .refl _ _, fun symbol => by rw [State.linksOf, State.linksOf, hlinks],
    fun _ _ => .of_attempts hatts⟩

theorem located (h : Discloses own s s') (hs : s.Located) : s'.Located := fun {symbol t} ht => by
  obtain ⟨n, hn⟩ := hs (h.namespaces symbol ▸ ht)
  exact h.frozen.grows.namespaceType hn

theorem trans (h : Discloses own s s₁) (h' : Discloses own s₁ s₂) : Discloses own s s₂ where
  frozen := h.frozen.trans h'.frozen
  namespaces symbol := (h'.namespaces symbol).trans (h.namespaces symbol)
  shows hown hs := by
    obtain ⟨new, heq, hnew⟩ := h.shows hown hs
    obtain ⟨new', heq', hnew'⟩ := h'.shows (fun id hid => h.frozen.grows.has (hown id hid))
      (h.located hs)
    refine ⟨new ++ new', by rw [heq', heq, List.append_assoc], fun a ha => ?_⟩
    rcases List.mem_append.mp ha with ha | ha
    · obtain ⟨row, hseen, hrow⟩ := hnew a ha
      refine ⟨row, hseen, ?_⟩
      cases hns : row.shape.isNamespace with
      | true => exact .inl rfl
      | false =>
        obtain ⟨hnot, hrow⟩ := hrow.resolve_left (by simp [hns])
        exact .inr ⟨hnot, h'.frozen.kept hrow (fun heq => hnot (hown _ heq)) hns⟩
    · obtain ⟨row, hseen, hrow⟩ := hnew' a ha
      exact ⟨row, hseen, hrow.imp_right fun ⟨hnot, hrow⟩ =>
        ⟨fun hhas => hnot (h.frozen.grows.has hhas), hrow⟩⟩

theorem mono (h : Discloses none s s') (own : Option TypeId) : Discloses own s s' where
  frozen := ⟨h.frozen.grows, fun hrow _ => h.frozen.kept hrow (by simp)⟩
  namespaces := h.namespaces
  shows _ hs := h.shows (by simp) hs

theorem addRow (row : TypeRecord) : Discloses own s (s.addRow row) :=
  ⟨.push _ _ _, fun _ => rfl, fun _ _ => .of_attempts rfl⟩

/-- The construction of a type changes no type that was there before. -/
theorem construct {t : TypeId} (hnew : ¬ s.types.Has t) (h : Discloses none s s₁)
    (hatts : s₁.attempts = s.attempts) (hhas : s₁.types.Has t)
    (h' : Discloses (some t) s₁ s₂) : Discloses none s s₂ := by
  have hsome : Discloses (some t) s s₂ := (h.mono (some t)).trans h'
  refine ⟨⟨hsome.frozen.grows, fun hrow _ => hsome.frozen.kept hrow fun heq => ?_⟩,
    hsome.namespaces, fun _ hs => ?_⟩
  · exact hnew (Option.some.inj heq ▸ ⟨_, hrow⟩)
  · obtain ⟨new, heq, hshown⟩ := h'.shows (fun id hid => Option.some.inj hid ▸ hhas) (h.located hs)
    refine ⟨new, heq.trans (by rw [hatts]), fun a ha => ?_⟩
    obtain ⟨row, hseen, hrow⟩ := hshown a ha
    exact ⟨row, hseen, hrow.imp_right fun ⟨hnot, hrow⟩ =>
      ⟨fun hold => hnot (h.frozen.grows.has hold), hrow⟩⟩

/-- After its construction the decorators of a type see what it is. -/
theorem finish {finish : Bool} (hnew : ¬ s.types.Has t) (h : Discloses none s s₁)
    (hhas : s₁.types.Has t) (hfin : Finished finish t s₁ s₂) : Discloses none s s₂ := by
  rcases hfin with rfl | ⟨-, hdec⟩
  · exact h
  · have hframe : Frame none s₁ s₂ := .ofDecorated hdec
    refine ⟨h.frozen.trans hframe.frozen, fun symbol => (hframe.namespaces symbol).trans
      (h.namespaces symbol), fun hown hs => ?_⟩
    obtain ⟨new, heq, hshown⟩ := h.shows hown hs
    obtain ⟨tried, heq', htried, -⟩ := hdec.tried
    refine ⟨new ++ tried, by rw [heq', heq, List.append_assoc], fun a ha => ?_⟩
    rw [hdec.types]
    rcases List.mem_append.mp ha with ha | ha
    · exact hshown a ha
    · obtain ⟨row, hrow⟩ := hhas
      obtain ⟨rfl, -, hseen⟩ := htried a ha
      exact ⟨row, hseen.trans hrow, Or.inr ⟨hnew, hrow⟩⟩

/-- Decorators of a namespace are run at any time. -/
theorem decorated {applications : List DecoratorApplication} {symbol : SymbolId}
    (h : Decorated t applications s s') (ht : (s.linksOf symbol).namespaceType = some t) :
    Discloses none s s' := by
  have hframe : Frame none s s' := .ofDecorated h
  refine ⟨hframe.frozen, hframe.namespaces, fun _ hs => ?_⟩
  obtain ⟨n, hn⟩ := hs ht
  obtain ⟨row, hrow, hshape⟩ := Option.map_eq_some_iff.mp hn
  obtain ⟨new, heq, hnew, -⟩ := h.tried
  exact ⟨new, heq, fun a ha => ⟨row, (hnew a ha).2.2.trans hrow, Or.inl (hshape ▸ rfl)⟩⟩

end Discloses

end Checking

end ApiSchema
