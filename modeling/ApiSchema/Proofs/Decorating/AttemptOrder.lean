import ApiSchema.Proofs.Checking.NamespaceTypes
import ApiSchema.Proofs.Checking.Session
import ApiSchema.Proofs.Decorating.Disclosure

/-!
# The order of attempts

The decorators of a type are tried one after the other in the order of its list, and none twice. A
type that is no namespace is completed once, by the check that constructs it. A namespace gets its
decorators in portions, one for each statement that reopens it, and each portion is tried as soon as
it is attached.
-/

namespace ApiSchema

open TypeTable Table NamespaceType List

variable {row : TypeRecord} {target t : TypeId}
  {applications decorators : List DecoratorApplication} {node : NodeId} {finish : Bool}
  {template : Option NodeId} {floor : Nat} {known key : List TypeId} {P : List TypeId → Prop}
  {f : NamespaceType → NamespaceType}

namespace TypeTable

variable {types : TypeTable}

theorem decorators_of_not_has (h : ¬ types.Has t) : types.decorators t = [] := by
  cases hshape : types.shape? t with
  | none => simp [decorators, hshape]
  | some shape => exact absurd (has_of_shape hshape) h

theorem decorators_push_of_has (row : TypeRecord) (h : types.Has t) :
    TypeTable.decorators (push types row) t = types.decorators t := by
  simp only [decorators, shape?, get?_push_of_has h]

theorem undecorated_push (hrow : row.shape.decorators = []) (h : ∀ t, types.decorators t = [])
    (t : TypeId) :
    TypeTable.decorators (push types row) t = [] := by
  by_cases hhas : types.Has t
  · exact (decorators_push_of_has row hhas).trans (h t)
  · rw [decorators, shape?_push]
    split
    · simp [hrow]
    · exact decorators_of_not_has hhas

theorem decorators_modifyNamespace (hf : ∀ n : NamespaceType, (f n).decorators = n.decorators)
    (id t : TypeId) : (types.modifyNamespace id f).decorators t = types.decorators t := by
  rw [decorators, decorators, modifyNamespace, shape?_modifyShape]
  split
  next h =>
    subst h
    cases types.shape? t with
    | none => rfl
    | some shape => cases shape <;> simp [TypeShape.decorators, hf]
  · rfl

end TypeTable

namespace Checking

variable {env : Environment} {own : Option TypeId} {s s' s₁ s₂ : State} {t : TypeId}

/-- The decorators that were tried on a type, in the order of the attempts. -/
def State.tried (s : State) (t : TypeId) : List DecoratorApplication :=
  (s.attempts.filter fun a => a.target = t).map Attempt.application

/-- A type is a namespace. -/
def State.IsNamespace (s : State) (t : TypeId) : Prop :=
  ∃ n, s.types.shape? t = some (.namespaceType n)

/-- What was tried on a type is the first part of its decorators, and all of them if they were to be
run and nothing failed. -/
structure State.InTurn (s : State) (t : TypeId) : Prop where
  isPrefix : s.tried t <+: s.types.decorators t
  whole : t ∈ s.finished ∨ s.IsNamespace t → s.failure = none → s.tried t = s.types.decorators t
  has : t ∈ s.finished → s.types.Has t

theorem State.InTurn.untried (h : s.InTurn t) (hnew : ¬ s.types.Has t) : s.tried t = [] := by
  have hprefix := h.isPrefix
  rw [decorators_of_not_has hnew] at hprefix
  exact prefix_nil.mp hprefix

/-- A run of decorators leaves other types alone. -/
theorem Decorated.tried_of_ne (h : Decorated target applications s s') (hne : t ≠ target) :
    s'.tried t = s.tried t := by
  obtain ⟨new, hnew, htried, -⟩ := h.tried
  have hnone : new.filter (fun a => a.target = t) = [] :=
    filter_eq_nil_iff.mpr fun a ha => by simp [(htried a ha).1, hne.symm]
  rw [State.tried, State.tried, hnew, filter_append, hnone, append_nil]

/-- A run of decorators tries the first of them, and all if nothing fails. -/
theorem Decorated.tried_self (h : Decorated t applications s s') :
    ∃ new, s'.tried t = s.tried t ++ new ∧
      new <+: applications ∧ (s.failure ≠ none → new = []) ∧
      (s'.failure = none → new = applications) := by
  obtain ⟨new, hnew, htried, hprefix, hhalted, hall⟩ := h.tried
  refine ⟨new.map Attempt.application, ?_, hprefix, fun hfailed => by simp [hhalted hfailed], hall⟩
  have hself : new.filter (fun a => a.target = t) = new :=
    filter_eq_self.mpr fun a ha => by simp [(htried a ha).1]
  rw [State.tried, State.tried, hnew, filter_append, hself, map_append]

theorem Decorated.inTurn_of_ne (h : Decorated target applications s s') (hne : t ≠ target)
    (hs : s.InTurn t) :
    s'.InTurn t := by
  have hfin : t ∈ s'.finished → t ∈ s.finished := fun ht =>
    (h.finished t ht).resolve_right hne
  constructor
  · rw [h.tried_of_ne hne, h.types]
    exact hs.isPrefix
  · intro ht hnone
    rw [h.tried_of_ne hne, h.types]
    rw [State.IsNamespace, h.types] at ht
    exact hs.whole (ht.imp_left hfin) (h.failure_of_eq_none hnone)
  · exact fun ht => h.types ▸ hs.has (hfin ht)

/-! ### Checks -/

/-- Between the states decorators were tried in order on new types and on namespaces. -/
structure Tries (own : Option TypeId) (s s' : State) : Prop extends Discloses own s s' where
  failure : s'.failure = none → s.failure = none
  untouched : s.Located → ∀ {t : TypeId} {row : TypeRecord}, s.types.get? t = some row →
    row.shape.isNamespace = false →
    s'.tried t = s.tried t ∧ (t ∈ s'.finished → t ∈ s.finished)
  inTurn : s.Located → ∀ {t : TypeId}, own ≠ some t → s.InTurn t → s'.InTurn t

namespace Tries

/-- A change that tries nothing and attaches no decorators to types that were there before. -/
theorem of_discloses (h : Discloses own s s') (hatts : s'.attempts = s.attempts)
    (hfin : s'.finished = s.finished) (hfail : s'.failure = none → s.failure = none)
    (hdecs : ∀ {t : TypeId}, own ≠ some t → s.types.Has t →
      s'.types.decorators t = s.types.decorators t)
    (hplain : ∀ {t : TypeId}, ¬ s.types.Has t → ¬ s'.IsNamespace t) : Tries own s s' := by
  have htried : ∀ t, s'.tried t = s.tried t := fun t => by rw [State.tried, State.tried, hatts]
  refine ⟨h, hfail, fun _ {t _} _ _ => ⟨htried t, fun ht => hfin ▸ ht⟩, fun _ {t} hown ht => ?_⟩
  by_cases hhas : s.types.Has t
  · have hsame := hdecs hown hhas
    refine ⟨by rw [htried, hsame]; exact ht.isPrefix, fun hrun hnone => ?_,
      fun hrun => h.frozen.grows.has hhas⟩
    rw [htried, hsame]
    refine ht.whole (hrun.imp (fun hrun => hfin ▸ hrun) fun ⟨n, hn⟩ => ?_) (hfail hnone)
    obtain ⟨row, hrow⟩ := hhas
    cases hshape : row.shape with
    | namespaceType m => exact ⟨m, by simp [shape?, hrow, hshape]⟩
    | _ =>
      have hkept := h.frozen.kept hrow hown (by rw [hshape]; rfl)
      simp [shape?, hkept, hshape] at hn
  · have hnot : t ∉ s'.finished := fun hrun => hhas (ht.has (hfin ▸ hrun))
    refine ⟨?_, fun hrun => ?_, fun hrun => absurd hrun hnot⟩
    · rw [htried, ht.untried hhas]
      exact nil_prefix
    · exact absurd hrun (not_or.mpr ⟨hnot, hplain hhas⟩)

/-- What is not about types and attempts does not matter. -/
theorem of_types (htypes : s'.types = s.types) (hlinks : s'.links = s.links)
    (hatts : s'.attempts = s.attempts) (hfin : s'.finished = s.finished)
    (hfail : s'.failure = none → s.failure = none) : Tries own s s' := by
  refine of_discloses (.of_types htypes hlinks hatts) hatts hfin hfail
    (fun _ _ => by rw [htypes]) fun hnew ⟨n, hn⟩ => ?_
  rw [htypes] at hn
  exact hnew (has_of_shape hn)

theorem refl (own : Option TypeId) (s : State) : Tries own s s := .of_types rfl rfl rfl rfl id

theorem trans (h : Tries own s s₁) (h' : Tries own s₁ s₂) : Tries own s s₂ where
  toDiscloses := h.toDiscloses.trans h'.toDiscloses
  failure hnone := h.failure (h'.failure hnone)
  untouched hs {t row} hrow hshape := by
    obtain ⟨shape, hrow₁, hgrown⟩ := h.frozen.grows.row hrow
    obtain ⟨htried, hfin⟩ := h.untouched hs hrow hshape
    obtain ⟨htried', hfin'⟩ := h'.untouched (h.located hs) hrow₁
      (hgrown.isNamespace_eq.trans hshape)
    exact ⟨htried'.trans htried, fun ht => hfin (hfin' ht)⟩
  inTurn hs {t} hown ht := h'.inTurn (h.located hs) hown (h.inTurn hs hown ht)

theorem mono (h : Tries none s s') (own : Option TypeId) : Tries own s s' where
  toDiscloses := h.toDiscloses.mono own
  failure := h.failure
  untouched := h.untouched
  inTurn hs _ _ ht := h.inTurn hs (by simp) ht

theorem addRow (hshape : row.shape.isNamespace = false) :
    Tries own s (s.addRow row) := by
  refine of_discloses (.addRow row) rfl rfl id (fun _ hhas => decorators_push_of_has _ hhas)
    fun {t} hnew ⟨n, hn⟩ => ?_
  rcases shape?_push_cases hn with ⟨-, heq⟩ | hold
  · simp [← heq] at hshape
  · exact hnew (has_of_shape hold)

theorem declare (symbol : Option SymbolId) (known type : TypeId) (isTemplate : Bool)
    (key : List TypeId) : Tries own s (s.declare symbol known type isTemplate key) := by
  refine of_discloses (.of_frame (declare_frame _ _ _ _ _) (by rw [State.declare_eq]))
    (by rw [State.declare_eq]) (by rw [State.declare_eq]) (by rw [State.declare_eq]; exact id) (fun _ _ => by rw [State.types_declare])
    fun hnew ⟨n, hn⟩ => ?_
  rw [State.types_declare] at hn
  exact hnew (has_of_shape hn)

/-- A namespace that is filled keeps its decorators. -/
theorem fill (id : TypeId) (hf : ∀ n : NamespaceType, n.Extends (f n))
    (hdecs : own = some id ∨ ∀ n : NamespaceType, (f n).decorators = n.decorators) :
    Tries own s (s.modifyTypes fun types => types.modifyNamespace id f) := by
  refine of_discloses (.of_frame (.modifyNamespace id hf) rfl) rfl rfl (fun hnone => hnone)
    (fun {t} hown _ => ?_) fun {t} hnew ⟨n, hn⟩ => ?_
  · rcases hdecs with rfl | hsame
    · have hne : t ≠ id := fun heq => hown (congrArg some heq.symm)
      change (s.types.modifyNamespace id f).decorators t = _
      rw [TypeTable.decorators, TypeTable.modifyNamespace, shape?_modifyShape, if_neg hne]
      rfl
    · exact decorators_modifyNamespace hsame _ _
  · have hhas := has_of_shape hn
    rw [has_iff] at hnew hhas
    exact hnew (Nat.lt_of_lt_of_eq hhas (size_modify _ _ _))

/-- The type under construction is changed. -/
theorem amend {f : TypeShape → TypeShape}
    (hf : ∀ {shape}, s.types.shape? t = some shape → shape.Grown (f shape)) :
    Tries (some t) s (s.modifyTypes fun types => types.modifyShape t f) := by
  refine of_discloses (.of_frame (.modifyOwn hf) rfl) rfl rfl id (fun {u} hown _ => ?_)
    fun {u} hnew ⟨n, hn⟩ => ?_
  · change (s.types.modifyShape t f).decorators u = _
    have hne : u ≠ t := fun heq => hown (congrArg some heq.symm)
    rw [TypeTable.decorators, shape?_modifyShape, if_neg hne]
    rfl
  · have hhas := has_of_shape hn
    rw [has_iff] at hnew hhas
    exact hnew (Nat.lt_of_lt_of_eq hhas (size_modify _ _ _))

theorem enlist (tree : Tree) (node : NodeId) (t : TypeId) :
    Tries own s (s.enlist tree node t) := by
  rw [State.enlist]
  split
  next listing _ _ _ =>
    exact .fill _ (extends_enlist _ _ _) (.inr fun n => by cases listing <;> rfl)
  · exact .refl _ _

theorem closed {isTemplate instantiating : Bool}
    (h : Closed env.tree node key t isTemplate instantiating s s') : Tries own s s' := by
  cases h with
  | instantiated => exact .of_types rfl rfl rfl rfl id
  | declared heq =>
    exact heq ▸ ((Tries.declare _ _ _ _ _).trans (.enlist _ _ _)).trans
      (.of_types rfl rfl rfl rfl id)

/-- A type that was constructed, and on which nothing was tried so far, is completed: its decorators
are run, or left alone if it is open. -/
theorem complete (hnew : ¬ s.types.Has t) (hdiscloses : Discloses none s s₁)
    (h : Tries (some t) s s₁) (hhas : s₁.types.Has t) (hplain : ¬ s₁.IsNamespace t)
    (huntouched : s.Located → s₁.tried t = s.tried t ∧ (t ∈ s₁.finished → t ∈ s.finished))
    (hfin : Finished finish t s₁ s₂) : Tries none s s₂ := by
  -- Before the construction the type was not there, so that nothing was tried on it.
  have hopen : s.Located → s.InTurn t → s₁.tried t = [] ∧ t ∉ s₁.finished := fun hs ht => by
    obtain ⟨htried, hlate⟩ := huntouched hs
    exact ⟨htried.trans (ht.untried hnew), fun hrun => hnew (ht.has (hlate hrun))⟩
  have hother : ∀ {u : TypeId} {row : TypeRecord}, s.types.get? u = some row → u ≠ t :=
    fun hrow heq => hnew (heq ▸ ⟨_, hrow⟩)
  have hclosed : Discloses none s s₂ := .finish hnew hdiscloses hhas hfin
  rcases hfin with rfl | ⟨-, hdec⟩
  · refine ⟨hclosed, h.failure, h.untouched, fun hs {u} _ hu => ?_⟩
    by_cases heq : u = t
    · subst heq
      obtain ⟨htried, hnot⟩ := hopen hs hu
      refine ⟨?_, fun hrun => absurd hrun (not_or.mpr ⟨hnot, hplain⟩), fun _ => hhas⟩
      rw [htried]
      exact nil_prefix
    · exact h.inTurn hs (fun hown => heq (Option.some.inj hown).symm) hu
  · refine ⟨hclosed, fun hnone => h.failure (hdec.failure_of_eq_none hnone),
      fun hs {u row} hrow hshape => ?_, fun hs {u} _ hu => ?_⟩
    · obtain ⟨htried, hlate⟩ := h.untouched hs hrow hshape
      refine ⟨(hdec.tried_of_ne (hother hrow)).trans htried, fun hrun => hlate ?_⟩
      exact (hdec.finished u hrun).resolve_right (hother hrow)
    · by_cases heq : u = t
      · subst heq
        obtain ⟨htried, hnot⟩ := hopen hs hu
        obtain ⟨new, hnew, hfirst, -, hall⟩ := hdec.tried_self
        rw [htried, nil_append] at hnew
        refine ⟨?_, fun _ hnone => ?_, fun _ => ?_⟩
        · rw [hnew, hdec.types]
          exact hfirst
        · rw [hnew, hdec.types]
          exact hall hnone
        · rw [hdec.types]
          exact hhas
      · exact hdec.inTurn_of_ne heq
          (h.inTurn hs (fun hown => heq (Option.some.inj hown).symm) hu)

/-- A type is added to the table, and its decorators are run. -/
theorem added (hshape : row.shape.isNamespace = false)
    (hfin : Finished finish s.types.nextId (s.addRow row) s') : Tries none s s' := by
  have hrow : (s.addRow row).types.shape? s.types.nextId = some row.shape := shape?_push_nextId row
  refine .complete not_has_nextId (.addRow row) (.addRow hshape)
    (has_of_shape hrow) (fun ⟨n, hn⟩ => ?_) (fun _ => ⟨rfl, id⟩) hfin
  simp [Option.mem_unique hrow hn] at hshape

/-- New decorators of a namespace are tried when they are attached. -/
theorem reopened {symbol : SymbolId} (ht : (s.linksOf symbol).namespaceType = some t)
    (h : Decorated t decorators (s.decorateNamespace t decorators) s') : Tries none s s' := by
  have hframe : Frame none s (s.decorateNamespace t decorators) :=
    .modifyNamespace t fun n => .decorate n decorators
  have hattached : Tries (some t) s (s.decorateNamespace t decorators) :=
    .fill t (fun n => .decorate n decorators) (.inl rfl)
  have hother : ∀ {u : TypeId}, u ≠ t → some t ≠ some u := fun hne heq =>
    hne (Option.some.inj heq).symm
  refine ⟨(Discloses.of_frame hframe rfl).trans (.decorated h ((hframe.namespaces _).trans ht)),
    fun hnone => h.failure_of_eq_none hnone, fun hs {u row} hrow hshape => ?_,
    fun hs {u} _ hu => ?_⟩
  · have hne : u ≠ t := by
      rintro rfl
      obtain ⟨n, hn⟩ := hs ht
      have heq : row.shape = .namespaceType n := by simpa [TypeTable.shape?, hrow] using hn
      simp [heq] at hshape
    exact ⟨h.tried_of_ne hne, fun hrun => (h.finished u hrun).resolve_right hne⟩
  · by_cases heq : u = t
    · subst heq
      obtain ⟨n, hn⟩ := hs ht
      have hdecs : s'.types.decorators u = s.types.decorators u ++ decorators := by
        rw [h.types]
        change (s.types.modifyNamespace u _).decorators u = _
        simp [TypeTable.decorators, TypeTable.modifyNamespace, shape?_modifyShape, hn,
          TypeShape.decorators]
      obtain ⟨new, hnew, hfirst, hhalted, hall⟩ := h.tried_self
      have htried : s'.tried u = s.tried u ++ new := hnew
      have hwhole := hu.whole (.inr ⟨n, hn⟩)
      refine ⟨?_, fun _ hnone => ?_, fun _ => ?_⟩
      · rw [htried, hdecs]
        by_cases hnone : s.failure = none
        · rw [hwhole hnone]
          exact (prefix_append_right_inj _).mpr hfirst
        · rw [hhalted hnone, append_nil]
          exact hu.isPrefix.trans (prefix_append _ _)
      · rw [htried, hdecs, hwhole (h.failure_of_eq_none hnone), hall hnone]
      · rw [h.types]
        exact hframe.grows.has (has_of_shape hn)
    · exact h.inTurn_of_ne heq (hattached.inTurn hs (hother heq) hu)

end Tries

/-- Every step tries decorators in order. -/
theorem tries_stepwise (own : Option TypeId) : Stepwise env own (Tries own) where
  refl := .refl own
  trans := .trans
  quiet h := by
    rw [h.eq]
    exact .of_types rfl rfl rfl rfl id
  raised _ := .of_types rfl rfl rfl rfl fun hnone => by
    simp [State.raise] at hnone
  added hplain _ _ hfin := by
    refine (Tries.added ?_ hfin).mono own
    generalize TypeRecord.shape _ = shape at hplain
    cases shape <;> simp_all
  assembled _ _ := .addRow rfl
  literal _ _ literal _ :=
    .trans (.addRow (by cases literal <;> rfl)) (.of_types rfl rfl rfl rfl id)
  parameter _ := .trans (.addRow rfl) (.of_types rfl rfl rfl rfl id)
  intrinsic _ _ := .trans (.addRow rfl) (.declare _ _ _ _ _)
  reference _ _ := .of_types rfl rfl rfl rfl id
  instantiated s symbol arguments t := by
    have hframe : Frame own s (s.addInstance symbol arguments t) :=
      .modifyLinks (fun _ => rfl) fun _ u hknown => ⟨u, hknown⟩
    refine .of_discloses (.of_frame hframe rfl) rfl rfl id (fun _ _ => rfl) ?_
    rintro _ hnew ⟨n, hn⟩
    exact hnew (has_of_shape hn)
  within := fun {s s₁ context} _ _ hinside => by
    have hent : Tries own s { s with context } := .of_types rfl rfl rfl rfl id
    exact (hent.trans hinside).trans (.of_types rfl rfl rfl rfl id)

section

variable {check : Check} (hcheck : Relates env (Tries none) check)

include hcheck

theorem Tries.leads (h : Leads env check template (some t) floor s known s' P) :
    Tries (some t) s s' := by
  refine (tries_stepwise (some t)).ofLeads
    { hcheck with related := fun hrun => (hcheck.related hrun).mono (some t) }
    (fun {id _ _ f} hown _ hamended => ?_)
    (fun _ _ _ => .of_types rfl rfl rfl rfl fun hnone => hnone) h
  cases hown
  exact .amend fun hshape => (hamended hshape).grown

/-- The construction of a type and its completion. -/
theorem Tries.completes (hnew : ¬ s.types.Has t) (h : Tries none s s₁)
    (hatts : s₁.attempts = s.attempts) (hlate : s₁.finished = s.finished)
    (hrow : s₁.types.get? t = some row) (hplain : row.shape.isNamespace = false)
    (hfilled : Leads env check template (some t) floor s₁ known s₂ P)
    (hfin : Finished finish t s₂ s') : Tries none s s' := by
  have hbuilt := Tries.leads hcheck hfilled
  obtain ⟨shape, hrow', hgrown⟩ := hbuilt.frozen.grows.row hrow
  refine .complete hnew (.construct hnew h.toDiscloses hatts ⟨_, hrow⟩ hbuilt.toDiscloses)
    ((h.mono (some t)).trans hbuilt) ⟨_, hrow'⟩ (fun ⟨n, hn⟩ => ?_) (fun hs => ?_) hfin
  · have heq : shape = .namespaceType n := by simpa [shape?, hrow'] using hn
    have hsame := hgrown.isNamespace_eq.trans hplain
    simp [heq] at hsame
  · obtain ⟨htried, hfin⟩ := hbuilt.untouched (h.located hs) hrow hplain
    rw [htried, State.tried, hatts]
    exact ⟨rfl, fun ht => hlate ▸ hfin ht⟩

end

/-- All checks try the decorators of new types and of namespaces in order. -/
theorem tries_evolution (hwf : env.tree.WellFormed) : Evolution env (Tries none) where
  toStepwise := tries_stepwise none
  construct := fun {check node s s₁ s₂ s' key stub marks} hcheck _ _ hkey _ horigin hbuilt
      hclosed => by
    obtain ⟨_, hcomps⟩ := hbuilt.completes hwf hcheck.framed
    obtain ⟨_, hfin, -⟩ := hcomps.finished
    have hplain : stub.isNamespace = false := by
      cases stub <;> simp_all
    have hadded : Tries none s₁ (s₁.addRow ⟨some node, stub⟩) := .addRow hplain
    have hopened : Tries none s₁ (s₁.opened node key stub marks) :=
      hadded.trans (.of_types rfl rfl rfl rfl id)
    have hcompleted := Tries.completes hcheck not_has_nextId hopened rfl rfl
      (get?_push_nextId _ _) hplain hcomps.filled hfin
    have hleft : Tries none s₂ { s₂ with building := s₁.building } := .of_types rfl rfl rfl rfl id
    exact hkey.trans (hcompleted.trans (hleft.trans (.closed hclosed)))
  expression := fun {check node s s₁ members} hcheck hkind hmems => by
    have hadded : Tries none s (s.addRow ⟨some node, .model .anonymous⟩) := .addRow rfl
    have hopened : Tries none s (s.drafted node) := hadded.trans (.of_types rfl rfl rfl rfl id)
    -- The models of expressions have no decorators to be run.
    have hfin : Finished false s.types.nextId s₁ s₁ := Or.inl rfl
    have hbuilt := Tries.completes hcheck not_has_nextId hopened rfl rfl
      (get?_push_nextId _ _) rfl (checkExpression_leads hwf hcheck.framed hkind hmems)
      hfin
    exact hbuilt.trans (.of_types rfl rfl rfl rfl id)
  enum := fun {check node s s₁ s₂ s₃ _ parts e _} hcheck _ _ hbefore _ _ _ hafter => by
    obtain ⟨_, hfin, -⟩ := hafter.finished
    have hadded : Tries none s₁ (s₁.addRow ⟨some node, .enumType e⟩) := .addRow rfl
    have hopened := hadded.trans
      (.declare (s₁.bindings.symbolOf? node) s₁.types.nextId s₁.types.nextId false [])
    have hrow : (s₁.entered node (.enumType e)).types.get? s₁.types.nextId =
          some ⟨some node, .enumType e⟩ := by
      rw [State.entered, State.types_declare]
      exact get?_push_nextId _ _
    have hcompleted := Tries.completes hcheck not_has_nextId hopened
      (by rw [State.declare_eq]; rfl) (by rw [State.declare_eq]; rfl) hrow rfl hafter.filled hfin
    exact hbefore.trans (hcompleted.trans (.enlist _ _ _))
  operation _ _ _ _ hbefore _ hfin :=
    hbefore.trans ((Tries.added rfl hfin).trans ((Tries.declare _ _ _ _ _).trans (.enlist _ _ _)))
  aliased := fun {check node s s₁ s₂ t parts key} hcheck _ _ hkey hvalue => by
    have hopened : Tries none s₁ (s₁.openAlias (node, key)) := .of_types rfl rfl rfl rfl id
    have hclosed : Tries none s (s₂.leaveAlias (node, key)) :=
      ((hkey.trans hopened).trans (hcheck.related hvalue)).trans (.of_types rfl rfl rfl rfl id)
    dsimp only [State.closeAlias]
    split
    · exact hclosed
    · exact hclosed.trans (.declare _ _ _ _ _)
  contents := fun {check node s s₁ s₂ s' t parts decorators} hcheck _ htype _ hbefore hdec
      hvisits => by
    obtain ⟨symbol, -, hloc⟩ := Option.bind_eq_some_iff.mp htype
    have hmarked : Tries none s (s.visiting node) := .of_types rfl rfl rfl rfl id
    have hopened := hmarked.trans hbefore
    exact (hopened.trans (.reopened ((hopened.namespaces _).trans hloc) hdec)).trans
      ((tries_stepwise none).ofVisits hcheck hvisits)

/-! ### Sessions -/

theorem initial_undecorated (b : Bindings) (t : TypeId) :
    (State.initial b).types.decorators t = [] := by
  have hempty : ∀ t, TypeTable.decorators empty t = [] := fun t => by
    simp [TypeTable.decorators, TypeTable.shape?, get?, empty]
  have herror : ∀ t, TypeTable.initial.decorators t = [] := undecorated_push rfl hempty
  rw [show (State.initial b).types = push TypeTable.initial _ from rfl]
  exact undecorated_push rfl herror t

theorem createNamespaceType_undecorated {name : String} {u : Unit}
    (h : ∀ t, s.types.decorators t = []) (hrun : createNamespaceType node name env s = some (u, s'))
    (t : TypeId) :
    s'.types.decorators t = [] := by
  rcases createNamespaceType_cases hrun with ⟨rfl, -⟩ | ⟨rfl, -⟩ | ⟨symbol, parent, -, -, -, rfl⟩
  · exact h t
  · exact h t
  · have hpushed : ∀ t, TypeTable.decorators (push s.types
        ⟨some node, .namespaceType (.make name (some parent))⟩) t = [] :=
      undecorated_push rfl h
    have hkept : ∀ n : NamespaceType, decorators { n with
        namespaces := n.namespaces.insertIfNew name s.types.nextId } = n.decorators := fun _ => rfl
    exact (decorators_modifyNamespace hkept parent t).trans (hpushed t)

/-- Before the first check nothing is to be tried. -/
theorem Blank.inTurn {bound : Bindings} {merged : Bool} (h : Blank env bound merged s)
    (hnone : ∀ t, s.types.decorators t = []) (t : TypeId) : s.InTurn t := by
  have htried : s.tried t = [] := by simp [State.tried, h.attempts]
  refine ⟨?_, fun _ _ => htried.trans (hnone t).symm, fun ht => by simp [h.finished] at ht⟩
  rw [htried]
  exact nil_prefix

section

variable {files : List SourceFile} {paths : List String} {registry : Registry} {designTime : Bool}
  {requests : List Request} {answers : List (Option TypeId)}

/-- Whatever is asked of the checker, decorators are tried in turn. -/
theorem Reached.inTurn {program : Program} (h : Reached program s) (t : TypeId) : s.InTurn t := by
  have hwf := h.wellFormed
  obtain ⟨paths, rfl | ⟨s₁, hprep, hchk⟩⟩ := h.prepares
  · exact (h.blank paths).inTurn (initial_undecorated _) t
  · have hprepd := (h.blank paths).prepare hwf hprep
    have hnone : ∀ t, s₁.types.decorators t = [] :=
      prepare_types (P := fun types => ∀ t, types.decorators t = []) hwf (h.blank paths)
        (initial_undecorated _) (fun _ => createNamespaceType_undecorated) hprep
    exact ((tries_evolution hwf).checked hwf hchk).inTurn hprepd.namespaceType (by simp)
      (hprepd.inTurn hnone t)

/-- Decorators are tried in order and at most once. Whatever is asked of the checker, the decorators
that were tried on a type, whether they were run or reported as unimplemented, are the first ones of
its list in the order of the list; and they are all of them if the type was completed, or is a
namespace, and no failure has ended the running of decorators. -/
theorem attempts_in_order (h : Performs ⟨.ofFiles files, registry, designTime⟩ requests
      (.initial (.declaring (.ofFiles files) paths)) answers s) (t : TypeId) :
    s.tried t <+: s.types.decorators t ∧
      (t ∈ s.finished ∨ s.IsNamespace t → s.failure = none → s.tried t = s.types.decorators t) :=
  ⟨(h.reached.inTurn t).isPrefix, (h.reached.inTurn t).whole⟩

end

/-- Lodges in two files. Suites are rooms, whose decorators they take over; tags do nothing yet. -/
def lodges : List SourceFile :=
  [⟨"north", [.namespaceDecl "Lodge" false
      [.modelDecl "Room" [] none none [] [.mk "doc" [.string "A room."], .mk "tag" []]]
      [.mk "tag" [], .mk "doc" [.string "Lodges."]]]⟩,
    ⟨"south", [.namespaceDecl "Lodge" false
      [.modelDecl "Suite" [] none (some (.reference "Room" [])) [] [.mk "tag" []]]
      [.mk "doc" [.string "More lodges."]]]⟩]

/-- The south is asked for first, and everything twice after that. On the namespace the decorator of
the south is tried, then those of the north, and on suites those of rooms before their own. -/
theorem attempts_in_order_lodges :
    ∃ answers s, Performs ⟨.ofFiles lodges, Documentation.install .empty, false⟩
        [.node ⟨41⟩, .program, .program] (.initial (.declaring (.ofFiles lodges) ["doc", "tag"]))
        answers s ∧
      s.failure = none ∧ ⟨2⟩ ∈ s.finished ∧ ⟨4⟩ ∈ s.finished ∧
      (s.types.decorators ⟨2⟩).map DecoratorApplication.path = ["doc", "doc", "tag"] ∧
      (s.types.decorators ⟨4⟩).map DecoratorApplication.path = ["tag", "doc", "tag"] ∧
      s.tried ⟨2⟩ = s.types.decorators ⟨2⟩ ∧ s.tried ⟨4⟩ = s.types.decorators ⟨4⟩ := by
  obtain ⟨answers, s, hrun, hfailure, hlodge, hsuite, hportions, htaken⟩ :=
    @exists_performs ⟨.ofFiles lodges, Documentation.install .empty, false⟩
      (.initial (.declaring (.ofFiles lodges) ["doc", "tag"])) 20 [.node ⟨41⟩, .program, .program]
      (fun outcome => outcome.2.failure = none ∧
        ⟨2⟩ ∈ outcome.2.finished ∧ ⟨4⟩ ∈ outcome.2.finished ∧
        (outcome.2.types.decorators ⟨2⟩).map DecoratorApplication.path = ["doc", "doc", "tag"] ∧
        (outcome.2.types.decorators ⟨4⟩).map DecoratorApplication.path = ["tag", "doc", "tag"])
      _ (by decide +kernel)
  exact ⟨answers, s, hrun, hfailure, hlodge, hsuite, hportions, htaken,
    (attempts_in_order hrun _).2 (.inl hlodge) hfailure,
    (attempts_in_order hrun _).2 (.inl hsuite) hfailure⟩

end Checking

end ApiSchema
