import Mathlib.Data.Option.Basic
import ApiSchema.Proofs.Checking.Run
import ApiSchema.Proofs.Syntax.WellFormed
import ApiSchema.Proofs.Types.Growth

/-!
# What a check leaves alone

A check adds types and knowledge to the state and puts back what it changes for the time of its run:
the context and the marks of what is under construction. Of the types that are there it changes only
namespaces and the one type that is under construction in its own computation, and that type only
grows. `Frame` collects this, and says the same of what was noted and reported.
-/

namespace ApiSchema.Checking

open OrderedMap TypeTable State Table Option List

variable {env : Environment} {own : Option TypeId} {s s' s'' : State} {target id t : TypeId}
  {p node : NodeId} {ps : List NodeId} {key arguments given : List TypeId} {kind : SymbolKind}
  {f : TypeShape → TypeShape}

/-- Only the links of one symbol change. -/
theorem linksOf_modifyLinks (s : State) (symbol other : SymbolId) (f : Links → Links) :
    (s.modifyLinks symbol f).linksOf other =
      if other = symbol then f (s.linksOf symbol) else s.linksOf other := by
  rw [linksOf, modifyLinks, find?_insert]
  split <;> rfl

/-- The state in which an instance of a template is recorded. -/
def State.addInstance (s : State) (symbol : SymbolId) (arguments : List TypeId) (t : TypeId) :
    State :=
  s.modifyLinks symbol fun links => { links with instances := links.instances.insert arguments t }

/-- An instance is added to those of its symbol. -/
theorem linksOf_addInstance (s : State) (symbol : SymbolId) (arguments : List TypeId) (t : TypeId) :
    (s.addInstance symbol arguments t).linksOf symbol = { s.linksOf symbol with
      instances := (s.linksOf symbol).instances.insert arguments t } := by
  rw [addInstance, linksOf_modifyLinks, if_pos rfl]

/-- Declared types stay what they are. -/
theorem declaredType?_addInstance (s : State) (symbol : SymbolId) (arguments : List TypeId)
    (t : TypeId) (other : SymbolId) :
    (s.addInstance symbol arguments t).declaredType? other = s.declaredType? other := by
  rw [declaredType?, addInstance, linksOf_modifyLinks]
  split
  next heq =>
    rw [heq]
    rfl
  · rfl

/-- An internal error is kept. -/
theorem State.isSome_failure_raise (s : State) (cause : InternalError) :
    (s.raise cause).failure.isSome = true := by
  simp [raise]

/-- What is known stays known, and the marks of what is under construction are put back. -/
structure Retains (s s' : State) : Prop where
  bindings : s'.bindings = s.bindings
  mergedSymbols : s'.mergedSymbols = s.mergedSymbols
  context : s'.context = s.context
  pending : s'.pending = s.pending
  openAliases : s'.openAliases = s.openAliases
  namespaces (symbol : SymbolId) :
    (s'.linksOf symbol).namespaceType = (s.linksOf symbol).namespaceType
  declared {symbol : SymbolId} {t : TypeId} : s.declaredType? symbol = some t →
    ∃ t', s'.declaredType? symbol = some t'
  visited : s.checkedNamespaces ⊆ s'.checkedNamespaces
  parameters {p : NodeId} {t : TypeId} : s.parameterTypes.find? p = some t →
    s'.parameterTypes.find? p = some t
  failure : s.failure.isSome = true → s'.failure.isSome = true

theorem Retains.refl (s : State) : Retains s s where
  bindings := rfl
  mergedSymbols := rfl
  context := rfl
  pending := rfl
  openAliases := rfl
  namespaces _ := rfl
  declared h := ⟨_, h⟩
  visited := List.Subset.refl _
  parameters h := h
  failure := id

theorem Retains.trans (h : Retains s s') (h' : Retains s' s'') : Retains s s'' where
  bindings := h'.bindings.trans h.bindings
  mergedSymbols := h'.mergedSymbols.trans h.mergedSymbols
  context := h'.context.trans h.context
  pending := h'.pending.trans h.pending
  openAliases := h'.openAliases.trans h.openAliases
  namespaces symbol := (h'.namespaces symbol).trans (h.namespaces symbol)
  declared hold := by
    obtain ⟨_, hknown⟩ := h.declared hold
    exact h'.declared hknown
  visited := List.Subset.trans h.visited h'.visited
  parameters hold := h'.parameters (h.parameters hold)
  failure := h'.failure ∘ h.failure

/-- Between the states nothing changed but what a check may change, which of the types that were
there is `own` and the namespaces. -/
structure Frame (own : Option TypeId) (s s' : State) : Prop extends Retains s s' where
  building : s'.building = s.building
  initialized : s'.initialized = s.initialized
  grows : s.types.Grows s'.types
  kept {id : TypeId} {row : TypeRecord} : s.types.get? id = some row → own ≠ some id →
    row.shape.isNamespace = false → s'.types.get? id = some row
  newParameters {id : TypeId} {node : Option NodeId} :
    s'.types.get? id = some ⟨node, .templateParameter⟩ →
    s.types.Has id ∨ ∃ p, node = some p ∧ s'.parameterTypes.find? p = some id
  diagnostics : s.diagnostics.toList <+: s'.diagnostics.toList
  references : s.references <:+ s'.references
  readings : ∃ new, s'.readings = new ++ s.readings ∧
    ∀ r ∈ new, own = some r.reader ∨ ¬ s.types.Has r.reader

namespace Frame

/-- Nothing changes. -/
theorem refl (own : Option TypeId) (s : State) : Frame own s s where
  toRetains := .refl s
  building := rfl
  initialized := rfl
  grows := .refl _
  kept h _ _ := h
  newParameters h := Or.inl ⟨_, h⟩
  diagnostics := prefix_rfl
  references := suffix_rfl
  readings := ⟨[], rfl, by simp⟩

/-- Two runs change what either may change. -/
theorem trans (h : Frame own s s') (h' : Frame own s' s'') : Frame own s s'' where
  toRetains := h.toRetains.trans h'.toRetains
  building := h'.building.trans h.building
  initialized := h'.initialized.trans h.initialized
  grows := h.grows.trans h'.grows
  kept hrow hown hshape := h'.kept (h.kept hrow hown hshape) hown hshape
  newParameters := fun {id node} hrow => by
    rcases h'.newParameters hrow with ⟨⟨node', shape⟩, hold⟩ | hnew
    · obtain ⟨shape', hrow', hgrown⟩ := h'.grows.row hold
      rw [hrow, Option.some.injEq, TypeRecord.mk.injEq] at hrow'
      obtain ⟨rfl, rfl⟩ := hrow'
      cases hgrown
      exact (h.newParameters hold).imp_right fun ⟨p, hp, hfind⟩ => ⟨p, hp, h'.parameters hfind⟩
    · exact .inr hnew
  diagnostics := h.diagnostics.trans h'.diagnostics
  references := h.references.trans h'.references
  readings := by
    obtain ⟨new, heq, hnew⟩ := h.readings
    obtain ⟨new', heq', hnew'⟩ := h'.readings
    refine ⟨new' ++ new, by rw [heq', heq, append_assoc], fun r hr => ?_⟩
    rcases mem_append.mp hr with hr | hr
    · exact (hnew' r hr).imp_right fun hnot hhas => hnot (h.grows.has hhas)
    · exact hnew r hr

/-- What leaves every type alone leaves all but one alone. -/
theorem mono (h : Frame none s s') (own : Option TypeId) : Frame own s s' :=
  { h with
    kept := fun hrow _ hshape => h.kept hrow (by simp) hshape
    readings := by
      obtain ⟨new, heq, hnew⟩ := h.readings
      exact ⟨new, heq, fun r hr => .inr ((hnew r hr).resolve_left (by simp))⟩ }

/-- What has been read stays noted. -/
theorem readings_subset (h : Frame own s s') : s.readings ⊆ s'.readings := by
  obtain ⟨new, heq, -⟩ := h.readings
  exact heq ▸ List.subset_append_right _ _

/-- A run that only reports is in the frame. -/
theorem ofQuiet (h : Quiet s s') : Frame own s s' := by
  have hprefix := h.diagnostics
  rw [h.eq]
  exact { refl own s with diagnostics := hprefix }

/-- So is an internal error. -/
theorem raise (cause : InternalError) : Frame own s (s.raise cause) :=
  { refl own s with failure := fun _ => s.isSome_failure_raise cause }

/-- So are decorators. -/
theorem ofDecorated {applications : List DecoratorApplication}
    (h : Decorated target applications s s') : Frame own s s' := by
  have hprefix := h.diagnostics
  have hfail : s.failure.isSome = true → s'.failure.isSome = true := fun hsome => by
    rcases h.failure with heq | ⟨name, cause, heq⟩ <;> simp [heq, hsome]
  rw [h.eq]
  exact { refl own s with
    diagnostics := hprefix
    failure := hfail }

/-- So is finishing a type. -/
theorem ofFinished {finish : Bool} (h : Finished finish target s s') :
    Frame own s s' := by
  rcases h with rfl | ⟨-, h⟩
  · exact .refl _ _
  · exact .ofDecorated h

/-- So is a new type that is no parameter. -/
theorem addRow {row : TypeRecord} (hrow : row.shape ≠ .templateParameter) :
    Frame own s (s.addRow row) :=
  { refl own s with
    grows := .push _ _
    kept := fun hold _ _ => (get?_push_of_has ⟨_, hold⟩).trans hold
    newParameters := fun {id node} hnew => by
      rcases get?_push_cases (t := s.types) hnew with ⟨-, rfl⟩ | hold
      · exact absurd rfl hrow
      · exact .inl ⟨_, hold⟩ }

/-- So is the growth of a type that may be changed. -/
theorem modifyShape {f : TypeShape → TypeShape}
    (hgrown : ∀ {shape}, s.types.shape? id = some shape → shape.Grown (f shape))
    (hkept : ∀ {shape}, s.types.shape? id = some shape → own ≠ some id →
      shape.isNamespace = false → f shape = shape) :
    Frame own s (s.modifyTypes fun types => types.modifyShape id f) :=
  { refl own s with
    grows := .modifyShape hgrown
    kept := fun {other row} hrow hown hshape => by
      change (s.types.modifyShape id f).get? other = some row
      rw [get?_modifyShape]
      split
      next heq =>
        subst heq
        rw [hrow, map_some, hkept (by simp [shape?, hrow]) hown hshape]
      · exact hrow
    newParameters := fun {other node} hrow => by
      refine .inl (has_iff.mpr ?_)
      have hhas := has_iff.mp (⟨_, hrow⟩ : Has _ other)
      exact Nat.lt_of_lt_of_eq hhas (size_modify _ _ _) }

/-- A namespace can be filled at any time. -/
theorem modifyNamespace (id : TypeId) {f : NamespaceType → NamespaceType}
    (hf : ∀ n : NamespaceType, n.Extends (f n)) :
    Frame own s (s.modifyTypes fun types => types.modifyNamespace id f) := by
  refine modifyShape (fun {shape} _ => .fill hf shape) fun {shape} _ _ hshape => ?_
  cases shape with
  | namespaceType n => simp at hshape
  | _ => rfl

/-- The own type may grow. -/
theorem modifyOwn (h : ∀ {shape}, s.types.shape? id = some shape → shape.Grown (f shape)) :
    Frame (some id) s (s.modifyTypes fun types => types.modifyShape id f) :=
  modifyShape h fun _ hown => absurd rfl hown

/-- So is what is recorded of a symbol, but for its namespace. -/
theorem modifyLinks {symbol : SymbolId} {f : Links → Links}
    (h : ∀ links, (f links).namespaceType = links.namespaceType)
    (hdecl : ∀ links t, links.declaredType = some t → ∃ t', (f links).declaredType = some t') :
    Frame own s (s.modifyLinks symbol f) := by
  refine { refl own s with
    namespaces := fun other => ?_
    declared := fun {other t} hknown => ?_ }
  · rw [linksOf_modifyLinks]
    split
    next heq =>
      rw [h, heq]
    · rfl
  · rw [declaredType?, linksOf_modifyLinks]
    split
    next heq =>
      exact hdecl _ _ (heq ▸ hknown)
    · exact ⟨t, hknown⟩

/-- Types that are left alone keep their shape. -/
theorem shape (h : Frame own s s') {shape : TypeShape} (hown : own ≠ some id)
    (hshape : s.types.shape? id = some shape) (hother : shape.isNamespace = false) :
    s'.types.shape? id = some shape := by
  obtain ⟨row, hrow, rfl⟩ := map_eq_some_iff.mp hshape
  rw [shape?, h.kept hrow hown hother]
  rfl

/-- What is put back after a run was left alone by it. -/
theorem within {context : Option Instantiation} {pending : OrderedMap (NodeId × List TypeId) TypeId}
    {building : List TypeId} {openAliases : List (NodeId × List TypeId)}
    (h : Frame own { s with context, pending, building, openAliases } s')
    (heq : s'' = { s' with
      context := s''.context
      pending := s''.pending
      building := s''.building
      openAliases := s''.openAliases })
    (hctx : s''.context = s.context) (hpend : s''.pending = s.pending)
    (hbuilding : s''.building = s.building) (hopenAliases : s''.openAliases = s.openAliases) :
    Frame own s s'' := by
  rw [heq]
  exact { h with
    context := hctx
    pending := hpend
    building := hbuilding
    openAliases := hopenAliases }

/-- What happens to a type that was not there before is of no account. -/
theorem forget {new : TypeId} (h : Frame (some new) s s') (hnew : ¬ s.types.Has new)
    (own : Option TypeId) : Frame own s s' :=
  mono { h with
    kept := fun hrow _ hshape => h.kept hrow (fun heq => hnew (Option.some.inj heq ▸ ⟨_, hrow⟩)) hshape
    readings := by
      obtain ⟨new', heq, hnew'⟩ := h.readings
      refine ⟨new', heq, fun r hr => .inr ?_⟩
      rcases hnew' r hr with heq | hnot
      · exact Option.some.inj heq ▸ hnew
      · exact hnot } own

end Frame

/-- Symbols stand for the same namespaces. -/
theorem Frame.namespaceTypeOf (h : Frame own s s') (symbol : SymbolId) :
    s'.namespaceTypeOf? symbol = s.namespaceTypeOf? symbol := by
  rw [namespaceTypeOf?, namespaceTypeOf?, mergedSymbol, mergedSymbol,
    h.mergedSymbols, h.namespaces]

/-- Which namespace a declaration belongs to does not change. -/
theorem Frame.parentNamespaceType (h : Frame own s s') (node : NodeId) :
    s'.parentNamespaceType? node = s.parentNamespaceType? node := by
  rw [parentNamespaceType?, parentNamespaceType?, h.bindings, funext h.namespaceTypeOf]

/-- Every run of a check leaves alone what it has to. -/
structure Framed (env : Environment) (check : Check) : Prop where
  frame {node : NodeId} {s s' : State} {t : TypeId} : check node env s = some (t, s') →
    Frame none s s'
  expression {node : NodeId} {members : List NodeId} {s s' : State} {t : TypeId} :
    env.tree.kind? node = some (.modelExpression members) → check node env s = some (t, s') →
    ∃ m, s'.types.shape? t = some (.model m)

/-! ### Template parameters -/

/-- An argument is that of the instance at the place of the parameter. -/
theorem templateArgument?_eq_some_iff :
    s.templateArgument? env.tree p = some t ↔ ∃ declaration arguments index,
      env.tree.parent? p = some declaration ∧ s.context = some ⟨declaration, arguments⟩ ∧
      (env.tree.templateParameters declaration).idxOf? p = some index ∧
      arguments[index]? = some t := by
  simp only [templateArgument?, bind_eq_bind, bind_eq_some_iff,
    guard_eq_some']
  constructor
  · rintro ⟨declaration, hpar, ⟨_, arguments⟩, hctx, _, rfl, index, hindex, ht⟩
    exact ⟨_, arguments, index, hpar, hctx, hindex, ht⟩
  · rintro ⟨declaration, arguments, index, hpar, hctx, hindex, ht⟩
    exact ⟨declaration, hpar, _, hctx, (), rfl, index, hindex, ht⟩

/-- Outside the instances of a template its parameters have no arguments. -/
theorem templateArgument?_eq_none (hwf : env.tree.WellFormed) {declaration : NodeId}
    (hp : p ∈ env.tree.templateParameters declaration)
    (hopen : s.isInstantiating declaration = false) : s.templateArgument? env.tree p = none := by
  refine eq_none_iff_forall_ne_some.mpr fun t ht => ?_
  obtain ⟨_, arguments, _, hpar, hctx, -⟩ := templateArgument?_eq_some_iff.mp ht
  rw [hwf.parameter_parent hp, Option.some.injEq] at hpar
  simp [isInstantiating, hctx, hpar] at hopen

/-- The parameter has an argument, or a type that is known, or gets a type. -/
theorem checkTemplateParameter_cases (h : checkTemplateParameter p env s = some (t, s')) :
    (s' = s ∧ s.templateArgument? env.tree p = some t) ∨
    (s.templateArgument? env.tree p = none ∧
      ((s' = s ∧ s.parameterTypes.find? p = some t) ∨
        (s.parameterTypes.find? p = none ∧ t = s.types.nextId ∧
          s' = { s.addRow ⟨some p, .templateParameter⟩ with
            parameterTypes := s.parameterTypes.insert p t }))) := by
  simp only [checkTemplateParameter, get_bind, getTree_bind] at h
  obtain ⟨harg, rfl⟩ | ⟨harg, h⟩ := run_known h
  · exact .inl ⟨rfl, harg⟩
  · simp only [get_bind] at h
    obtain ⟨hfound, rfl⟩ | ⟨hnone, h⟩ := run_known h
    · exact .inr ⟨harg, Or.inl ⟨rfl, hfound⟩⟩
    · simp only [addType_bind, modify_bind, run_pure] at h
      obtain ⟨rfl, rfl⟩ := h
      exact .inr ⟨harg, Or.inr ⟨hnone, rfl, rfl⟩⟩

/-- Parameters are checked in the frame. -/
theorem checkTemplateParameter_frame (h : checkTemplateParameter p env s = some (t, s')) :
    Frame own s s' := by
  rcases checkTemplateParameter_cases h with ⟨rfl, -⟩ | ⟨-, ⟨rfl, -⟩ | ⟨hnone, rfl, rfl⟩⟩
  · exact .refl _ _
  · exact .refl _ _
  · refine { Frame.refl own s with
      grows := .push _ _
      kept := fun hold _ _ => (get?_push_of_has ⟨_, hold⟩).trans hold
      parameters := fun {q t'} hq => ?_
      newParameters := fun {id node} hnew => ?_ }
    · rw [find?_insert, if_neg fun heq => by simp [heq ▸ hq] at hnone]
      exact hq
    · rcases get?_push_cases (t := s.types) hnew with ⟨rfl, heq⟩ | hold
      · exact .inr ⟨p, congrArg TypeRecord.node heq, find?_insert_self _ _ _⟩
      · exact .inl ⟨_, hold⟩

/-- So are lists of them. -/
theorem mapM_checkTemplateParameter_frame
    (h : ps.mapM checkTemplateParameter env s = some (key, s')) : Frame own s s' :=
  mapM_preserves (P := (Frame own s ·)) (.refl _ _)
    (fun hframe hp => hframe.trans (checkTemplateParameter_frame hp)) h

/-- Outside the instances of a template its parameters are left open. -/
theorem openParameters_find (hwf : env.tree.WellFormed)
    (hps : ps ⊆ env.tree.templateParameters node) (hopen : s.isInstantiating node = false)
    (h : ps.mapM checkTemplateParameter env s = some (key, s')) :
    ps.mapM s'.parameterTypes.find? = some key := by
  induction ps generalizing s key with
  | nil =>
    obtain ⟨rfl, -⟩ := run_mapM_nil.mp h
    rfl
  | cons p ps ih =>
    obtain ⟨hp, hps⟩ := cons_subset.mp hps
    obtain ⟨t, s₁, rest, hfirst, hrest, rfl⟩ := run_mapM_cons.mp h
    have hframe : Frame none s s₁ := checkTemplateParameter_frame hfirst
    have hlater : Frame none s₁ s' := mapM_checkTemplateParameter_frame hrest
    have hfound : s₁.parameterTypes.find? p = some t := by
      rcases checkTemplateParameter_cases hfirst with ⟨-, harg⟩ | ⟨-, ⟨rfl, ht⟩ | ⟨-, -, rfl⟩⟩
      · simp [templateArgument?_eq_none hwf hp hopen] at harg
      · exact ht
      · exact find?_insert_self _ _ _
    have hkey := ih hps (by rwa [isInstantiating, hframe.context]) hrest
    rw [mapM_cons, hlater.parameters hfound, hkey]
    rfl

section

variable (h : templateKey node env s = some (key, s'))

include h

/-- The key is the arguments of the instance being checked or else the open parameters. -/
theorem templateKey_cases :
    (s' = s ∧ s.context = some ⟨node, key⟩) ∨ (s.isInstantiating node = false ∧
      (env.tree.templateParameters node).mapM checkTemplateParameter env s = some (key, s')) := by
  simp only [templateKey, get_bind] at h
  replace h := run_chosen h
  split at h
  next hctx =>
    split at h
    next heq =>
      obtain ⟨rfl, rfl⟩ := run_pure.mp h
      exact .inl ⟨rfl, heq ▸ hctx⟩
    next hne =>
      exact .inr ⟨by simp [isInstantiating, hctx, hne], h⟩
  next hctx =>
    exact .inr ⟨by simp [isInstantiating, hctx], h⟩

/-- So is the key of a declaration. -/
theorem templateKey_frame : Frame own s s' := by
  rcases templateKey_cases h with ⟨rfl, -⟩ | ⟨-, h⟩
  · exact .refl _ _
  · exact mapM_checkTemplateParameter_frame h

/-- Leaving parameters open tells nothing of symbols. -/
theorem templateKey_links : s'.links = s.links := by
  rcases templateKey_cases h with ⟨rfl, -⟩ | ⟨-, h⟩
  · rfl
  · refine mapM_preserves (P := (·.links = s.links)) rfl (fun hlinks hp => ?_) h
    rcases checkTemplateParameter_cases hp with ⟨rfl, -⟩ | ⟨-, ⟨rfl, -⟩ | ⟨-, -, rfl⟩⟩ <;> exact hlinks

end

/-! ### References -/

section

variable {check : Check} {symbol : SymbolId} {declaration : NodeId} {t : TypeId}

/-- The declared type is known, or is worked out outside any instance. -/
theorem checkDeclaredType_cases
    (h : checkDeclaredType check symbol declaration env s = some (t, s')) :
    (s.declaredType? symbol = some t ∧ s' = s) ∨ (s.declaredType? symbol = none ∧
      ∃ s₁, check declaration env { s with context := none } = some (t, s₁) ∧
        s' = { s₁ with context := s.context }) := by
  simp only [checkDeclaredType, get_bind] at h
  exact (run_known h).imp_right fun hrest => ⟨hrest.1, run_withContext.mp hrest.2⟩

/-- An instance is known, or under construction, or is worked out and recorded. -/
theorem instantiate_cases (h : instantiate check symbol declaration arguments env s = some (t, s')) :
    ((s.linksOf symbol).instances.find? arguments = some t ∧ s' = s) ∨
    ((s.linksOf symbol).instances.find? arguments = none ∧
      ((s.pending.find? (declaration, arguments) = some t ∧ s' = s) ∨
        (s.pending.find? (declaration, arguments) = none ∧
          ∃ s₁, check declaration env { s with context := some ⟨declaration, arguments⟩ } =
              some (t, s₁) ∧
            s' = { s₁ with context := s.context }.addInstance symbol arguments t))) := by
  simp only [instantiate, get_bind] at h
  refine (run_known h).imp_right fun hrest => ⟨hrest.1, ?_⟩
  obtain ⟨-, h⟩ := hrest
  simp only [get_bind] at h
  refine (run_known h).imp_right fun hrest => ⟨hrest.1, ?_⟩
  obtain ⟨type, s₁, hrun, h⟩ := run_bind.mp hrest.2
  simp only [modify_bind, run_pure] at h
  obtain ⟨rfl, rfl⟩ := h
  obtain ⟨s₂, hinside, rfl⟩ := run_withContext.mp hrun
  exact ⟨s₂, hinside, rfl⟩

/-- What is referred to is a template parameter, a namespace or a declaration. -/
theorem checkReferent_cases (h : checkReferent check symbol kind declaration env s = some (t, s')) :
    (kind = .templateParameter ∧ checkTemplateParameter declaration env s = some (t, s')) ∨
    (kind = .namespaceKind ∧ ((s.namespaceTypeOf? symbol = some t ∧ s' = s) ∨
      check declaration env s = some (t, s'))) ∨
    (kind ≠ .templateParameter ∧ kind ≠ .namespaceKind ∧
      checkDeclaredType check symbol declaration env s = some (t, s')) := by
  rw [checkReferent.eq_def] at h
  replace h := run_chosen h
  split at h
  · exact .inl ⟨rfl, h⟩
  · simp only [Chosen, get_bind] at h
    exact .inr (.inl ⟨rfl, (run_known h).imp_right And.right⟩)
  next hparam hns =>
    exact .inr (.inr ⟨hparam, hns, h⟩)

/-- A reference to a template stands for the instance for its arguments, which is noted, and one to
anything else for what it refers to. -/
theorem checkDeclaredReference_cases
    (h : checkDeclaredReference check node symbol kind declaration given env s = some (t, s')) :
    (kind.isTemplatable = true ∧ env.tree.templateParameters declaration ≠ [] ∧
      ∃ known s₁ s₂ s₃ fitted, checkDeclaredType check symbol declaration env s = some (known, s₁) ∧
        Quiet s₁ s₂ ∧ fitted.length = (env.tree.templateParameters declaration).length ∧
        (∀ a ∈ fitted, a ∈ given ∨ a = errorType) ∧
        instantiate check symbol declaration fitted env s₂ = some (t, s₃) ∧
        s' = { s₃ with references := ⟨node, declaration, fitted, t⟩ :: s₃.references }) ∨
    ((kind.isTemplatable = true → env.tree.templateParameters declaration = []) ∧
      ∃ s₁, checkReferent check symbol kind declaration env s = some (t, s₁) ∧
        Quiet { s₁ with references := ⟨node, declaration, [], t⟩ :: s₁.references } s') := by
  simp only [checkDeclaredReference, getTree_bind] at h
  split at h
  next htempl =>
    obtain ⟨htabl, hparams⟩ := Bool.and_eq_true_iff.mp htempl
    rw [checkTemplateReference] at h
    obtain ⟨_, s₁, hdiscard, h⟩ := run_bind.mp h
    obtain ⟨known, hdecl⟩ := run_discard.mp hdiscard
    simp only [getTree_bind] at h
    obtain ⟨fitted, s₂, hfit, h⟩ := run_bind.mp h
    obtain ⟨type, s₃, hinst, h⟩ := run_bind.mp h
    obtain ⟨_, hnote, rfl⟩ := run_bind_pure.mp h
    obtain ⟨hquiet, hlength, hfitted⟩ := fitArguments_quiet hfit
    exact .inl ⟨htabl, by simpa using hparams, known, s₁, s₂, s₃, fitted, hdecl,
      hquiet, hlength, hfitted, hinst, run_modify.mp hnote⟩
  next hplain =>
    rw [checkPlainReference] at h
    obtain ⟨type, s₁, hrefnt, h⟩ := run_bind.mp h
    obtain ⟨_, s₂, hnote, h⟩ := run_bind.mp h
    obtain rfl := run_modify.mp hnote
    refine .inr ⟨fun htabl => by simpa [htabl] using hplain, s₁, ?_⟩
    split at h
    · obtain ⟨rfl, hquiet, -⟩ := run_reported h
      exact ⟨hrefnt, hquiet⟩
    · obtain ⟨rfl, rfl⟩ := run_pure.mp h
      exact ⟨hrefnt, .refl _⟩

variable (hcheck : Framed env check)

include hcheck

/-- Declared types are worked out in the frame. -/
theorem checkDeclaredType_frame
    (h : checkDeclaredType check symbol declaration env s = some (t, s')) : Frame none s s' := by
  obtain ⟨-, rfl⟩ | ⟨-, s₁, hrun, rfl⟩ := checkDeclaredType_cases h
  · exact .refl _ _
  · have hframe := hcheck.frame hrun
    exact hframe.within rfl rfl hframe.pending hframe.building hframe.openAliases

/-- So are instances. -/
theorem instantiate_frame (h : instantiate check symbol declaration arguments env s = some (t, s')) :
    Frame none s s' := by
  obtain ⟨-, rfl⟩ | ⟨-, ⟨-, rfl⟩ | ⟨-, s₁, hrun, rfl⟩⟩ := instantiate_cases h
  · exact .refl _ _
  · exact .refl _ _
  · have hframe := hcheck.frame hrun
    have hrestored : Frame none s { s₁ with context := s.context } :=
      hframe.within rfl rfl hframe.pending hframe.building hframe.openAliases
    exact hrestored.trans (.modifyLinks (fun _ => rfl) fun _ t hknown => ⟨t, hknown⟩)

/-- So is what is referred to. -/
theorem checkReferent_frame (h : checkReferent check symbol kind declaration env s = some (t, s')) :
    Frame none s s' := by
  obtain ⟨-, h⟩ | ⟨-, ⟨-, rfl⟩ | h⟩ | ⟨-, -, h⟩ := checkReferent_cases h
  · exact checkTemplateParameter_frame h
  · exact .refl _ _
  · exact hcheck.frame h
  · exact checkDeclaredType_frame hcheck h

omit hcheck in
/-- Noting a reference is in the frame. -/
theorem noteReference_frame (reference : Reference) :
    Frame own s { s with references := reference :: s.references } :=
  { Frame.refl own s with references := suffix_cons _ _ }

/-- So is a reference. -/
theorem checkDeclaredReference_frame
    (h : checkDeclaredReference check node symbol kind declaration given env s = some (t, s')) :
    Frame none s s' := by
  obtain ⟨-, -, known, s₁, s₂, s₃, fitted, hdecl, hquiet, -, -, hinst, rfl⟩ |
    ⟨-, s₁, hrefnt, hquiet⟩ := checkDeclaredReference_cases h
  · have hfirst := (checkDeclaredType_frame hcheck hdecl).trans (.ofQuiet hquiet)
    exact hfirst.trans ((instantiate_frame hcheck hinst).trans (noteReference_frame _))
  · exact (checkReferent_frame hcheck hrefnt).trans
      ((noteReference_frame _).trans (.ofQuiet hquiet))

end

end ApiSchema.Checking
