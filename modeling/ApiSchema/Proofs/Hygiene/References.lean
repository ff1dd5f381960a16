import ApiSchema.Proofs.Hygiene.Invariant

/-!
# Parameters and references

A node sees the tracked parameter only if it stands in the template of the parameter and that
template is not being instantiated with good arguments. A node that is `Apart` from the parameter in
this sense gets a good type. This module shows it for template parameters and for references, which
leave the template of the node where they stand and take with them nothing but their arguments.
-/

namespace ApiSchema.Checking

open State List Option

variable {env : Environment} {check : Check} {final : TypeTable}
  {parameter declaration node p : NodeId} {good good' : TypeId → Prop} {s s' : State} {t : TypeId}
  {template : Option NodeId} {arguments key given : List TypeId} {id symbol : SymbolId}

/-- The instance that is being checked has known arguments, one for each parameter. -/
structure Situated (env : Environment) (s : State) : Prop where
  known {i : Instantiation} : s.context = some i → ∀ a ∈ i.arguments, s.types.Has a
  length {i : Instantiation} : s.context = some i →
    i.arguments.length = (env.tree.templateParameters i.declaration).length

theorem Situated.mono (h : Situated env s) (hctx : s'.context = s.context)
    (hgrows : s.types.Grows s'.types) : Situated env s' where
  known hi a ha := hgrows.has (h.known (hctx ▸ hi) a ha)
  length hi := h.length (hctx ▸ hi)

/-- In a template the tracked parameter has no part: the template is being instantiated with good
arguments, or the parameter is not one of its own. -/
def Apart (env : Environment) (parameter : NodeId) (good : TypeId → Prop) (s : State)
    (template : Option NodeId) : Prop :=
  ∀ declaration, template = some declaration →
    (∃ arguments, s.context = some ⟨declaration, arguments⟩ ∧ ∀ a ∈ arguments, good a) ∨
    s.isInstantiating declaration = false ∧ parameter ∉ env.tree.templateParameters declaration

namespace Apart

theorem none : Apart env parameter good s none := by
  intro declaration hnone
  simp at hnone

theorem congr (hagrees : Agrees s good good') (hs : Situated env s)
    (hctx : s'.context = s.context) :
    Apart env parameter good' s' template ↔ Apart env parameter good s template := by
  refine forall₂_congr fun declaration _ => or_congr ?_ ?_
  · rw [hctx]
    refine exists_congr fun arguments => and_congr_right fun hi => ?_
    exact hagrees.all (hs.known hi)
  · rw [isInstantiating, isInstantiating, hctx]

theorem of_context (hctx : s.context = some ⟨declaration, arguments⟩)
    (hgood : ∀ a ∈ arguments, good a) :
    Apart env parameter good s (some declaration) :=
  fun _ heq => .inl ⟨arguments, some.inj heq ▸ hctx, hgood⟩

theorem of_not_mem (hnot : s.isInstantiating declaration = false)
    (hparam : parameter ∉ env.tree.templateParameters declaration) :
    Apart env parameter good s (some declaration) :=
  fun _ heq => .inr (some.inj heq ▸ ⟨hnot, hparam⟩)

/-- What has no template parameters is apart from all of them. -/
theorem of_parameters_nil (hs : Situated env s)
    (hparams : env.tree.templateParameters node = []) :
    Apart env parameter good s (some node) := by
  have hnot : parameter ∉ env.tree.templateParameters node := by simp [hparams]
  cases hctx : s.context with
  | none => exact of_not_mem (by simp [isInstantiating, hctx]) hnot
  | some i =>
    obtain ⟨declaration, arguments⟩ := i
    by_cases heq : declaration = node
    · subst heq
      have hlength : arguments.length = _ := hs.length hctx
      rw [hparams, length_nil, length_eq_zero_iff] at hlength
      exact of_context hctx (by simp [hlength])
    · exact of_not_mem (by simp [isInstantiating, hctx, heq]) hnot

/-- A declaration is in its own template, if in any. -/
theorem to_declaration (hs : Situated env s)
    (h : Apart env parameter good s (env.tree.templateDeclarationOf? node)) :
    Apart env parameter good s (some node) := by
  by_cases hparams : env.tree.templateParameters node = []
  · exact of_parameters_nil hs hparams
  · rwa [Tree.WellFormed.templateDeclarationOf_self hparams] at h

theorem of_declaration
    (hnode : env.tree.templateParameters node = [] →
      env.tree.templateDeclarationOf? node = Option.none)
    (h : Apart env parameter good s (some node)) :
    Apart env parameter good s (env.tree.templateDeclarationOf? node) := by
  by_cases hparams : env.tree.templateParameters node = []
  · rw [hnode hparams]
    exact none
  · rwa [Tree.WellFormed.templateDeclarationOf_self hparams]

end Apart

/-- A run comes to a type that is good under a condition, and keeps the invariant for some set of
good types that contains the same old types. -/
def Yields (env : Environment) (final : TypeTable) (parameter : NodeId) (good : TypeId → Prop)
    (s s' : State) (t : TypeId) (q : Prop) : Prop :=
  ∃ good', Agrees s good good' ∧ Hygienic env final parameter good' s' ∧ s'.types.Has t ∧
    (q → good' t)

/-- The check of a node yields a type that is good if the node is apart from the parameter. -/
structure Hygienics (env : Environment) (final : TypeTable) (parameter : NodeId) (check : Check) :
    Prop where
  yields {good : TypeId → Prop} {s s' : State} {node : NodeId} {t : TypeId} :
    Hygienic env final parameter good s → Situated env s → check node env s = some (t, s') →
    s'.types.Grows final → Yields env final parameter good s s' t
      (Apart env parameter good s (env.tree.templateDeclarationOf? node))

/-! ### Template parameters -/

/-- A parameter of a template that is being instantiated has an argument. -/
theorem exists_templateArgument (hwf : env.tree.WellFormed) (hs : Situated env s)
    (hp : p ∈ env.tree.templateParameters declaration)
    (hctx : s.context = some ⟨declaration, arguments⟩) :
    ∃ t, s.templateArgument? env.tree p = some t := by
  obtain ⟨index, hindex⟩ := isSome_iff_exists.mp (isSome_idxOf?.mpr hp)
  have hlt : index < arguments.length := by
    rw [hs.length hctx]
    exact (findIdx?_eq_some_iff_getElem.mp hindex).1
  exact ⟨arguments[index], templateArgument?_eq_some_iff.mpr
    ⟨declaration, arguments, index, hwf.parameter_parent hp, hctx, hindex, by simp⟩⟩

theorem isHole_of_grows (hgrows : s.types.Grows final)
    (hrow : s.types.get? t = some ⟨some parameter, .templateParameter⟩) :
    IsHole final parameter t := by
  obtain ⟨shape, hfinal, hgrown⟩ := hgrows.row hrow
  cases hgrown
  exact hfinal

/-- The type of an open parameter is good unless it is the tracked one. -/
theorem openParameter_hygienic (h : Hygienic env final parameter good s)
    (hgrows : s'.types.Grows final) (hopen : s.templateArgument? env.tree p = none)
    (hrun : checkTemplateParameter p env s = some (t, s')) :
    ∃ good', Agrees s good good' ∧ Hygienic env final parameter good' s' ∧ s'.types.Has t ∧
      (good' t ↔ p ≠ parameter) := by
  rcases checkTemplateParameter_cases hrun with ⟨-, harg⟩ | ⟨-, ⟨rfl, hknown⟩ | ⟨-, rfl, rfl⟩⟩
  · simp [hopen] at harg
  · obtain ⟨hrow, hgood⟩ := h.parameters hknown
    refine ⟨good, .refl, h, ⟨_, hrow⟩, fun hg heq => ?_, hgood⟩
    exact h.hole hg (isHole_of_grows hgrows (heq ▸ hrow))
  · have hrow : (s.addRow ⟨some p, .templateParameter⟩).types.get? s.types.nextId =
        some ⟨some p, .templateParameter⟩ := Table.get?_push_nextId _ _
    have hfinal : (s.addRow ⟨some p, .templateParameter⟩).types.Grows final := hgrows
    obtain ⟨hadded, hagrees⟩ := h.addRow ⟨some p, .templateParameter⟩ (p ≠ parameter)
      (fun hclear heq => hclear _ .refl (isHole_of_grows hfinal (heq ▸ hrow)))
      (fun hne => not_isHole_of_grows hfinal hrow fun _ heq => hne (some.inj heq))
      (by simp [TypeShape.links]) (by simp)
    refine ⟨_, hagrees, { hadded with parameters := fun {q u} hq => ?_ }, ⟨_, hrow⟩,
      by rw [Function.update_self]⟩
    rcases OrderedMap.find?_insert_cases hq with ⟨rfl, rfl⟩ | hq
    · rw [Function.update_self]
      exact ⟨hrow, id⟩
    · exact hadded.parameters hq

/-- A parameter yields its argument or itself. -/
theorem checkTemplateParameter_yields (hwf : env.tree.WellFormed)
    (hp : p ∈ env.tree.templateParameters declaration) (h : Hygienic env final parameter good s)
    (hs : Situated env s) (hgrows : s'.types.Grows final)
    (hrun : checkTemplateParameter p env s = some (t, s')) :
    Yields env final parameter good s s' t (Apart env parameter good s (some declaration)) := by
  cases harg : s.templateArgument? env.tree p with
  | none =>
    obtain ⟨good', hagrees, h', ht, hgood⟩ := openParameter_hygienic h hgrows harg hrun
    refine ⟨good', hagrees, h', ht, fun hapart => hgood.mpr fun heq => ?_⟩
    rcases hapart declaration rfl with ⟨arguments, hctx, -⟩ | ⟨-, hnot⟩
    · obtain ⟨_, hsome⟩ := exists_templateArgument hwf hs hp hctx
      simp [harg] at hsome
    · exact hnot (heq ▸ hp)
  | some argument =>
    rcases checkTemplateParameter_cases hrun with ⟨rfl, ht⟩ | ⟨hnone, -⟩
    · obtain ⟨_, arguments, index, hpar, hctx, -, hget⟩ := templateArgument?_eq_some_iff.mp ht
      rw [hwf.parameter_parent hp, some.injEq] at hpar
      subst hpar
      have hmem := mem_of_getElem? hget
      refine ⟨good, .refl, h, hs.known hctx t hmem, fun hapart => ?_⟩
      rcases hapart declaration rfl with ⟨arguments', hctx', hgood⟩ | ⟨hnot, -⟩
      · rw [hctx, some.injEq, Instantiation.mk.injEq] at hctx'
        exact hgood t (hctx'.2 ▸ hmem)
      · simp [isInstantiating, hctx] at hnot
    · simp [harg] at hnone

/-- The open parameters of a template are good unless the tracked one is among them. -/
theorem openParameters_hygienic (hwf : env.tree.WellFormed) {ps : List NodeId}
    (hps : ps ⊆ env.tree.templateParameters node) (h : Hygienic env final parameter good s)
    (hopen : s.isInstantiating node = false) (hgrows : s'.types.Grows final)
    (hrun : ps.mapM checkTemplateParameter env s = some (key, s')) :
    ∃ good', Agrees s good good' ∧ Hygienic env final parameter good' s' ∧
      (∀ a ∈ key, s'.types.Has a) ∧ ((∀ a ∈ key, good' a) ↔ parameter ∉ ps) := by
  induction ps generalizing s good key with
  | nil =>
    obtain ⟨rfl, rfl⟩ := run_mapM_nil.mp hrun
    exact ⟨good, .refl, h, by simp, by simp⟩
  | cons p ps ih =>
    obtain ⟨hp, hps⟩ := cons_subset.mp hps
    obtain ⟨t, s₁, rest, hfirst, hrest, rfl⟩ := run_mapM_cons.mp hrun
    have hframe : Frame none s s₁ := checkTemplateParameter_frame hfirst
    have hlater : s₁.types.Grows s'.types :=
      (show Frame none s₁ s' from mapM_checkTemplateParameter_frame hrest).grows
    have hnone := templateArgument?_eq_none hwf hp hopen
    obtain ⟨good₁, hagrees₁, h₁, ht, hgood₁⟩ :=
      openParameter_hygienic h (hlater.trans hgrows) hnone hfirst
    obtain ⟨good₂, hagrees₂, h₂, hhas, hgood₂⟩ := ih hps h₁
      (by rwa [isInstantiating, hframe.context]) hrest
    refine ⟨good₂, hagrees₁.trans hframe.grows hagrees₂, h₂,
      forall_mem_cons.mpr ⟨hlater.has ht, hhas⟩, ?_⟩
    rw [forall_mem_cons, hagrees₂ ht, hgood₁, hgood₂, mem_cons, not_or, ne_comm, Ne]

/-- The key of a declaration is good exactly when the declaration is apart from the parameter. -/
theorem templateKey_hygienic (hwf : env.tree.WellFormed) (h : Hygienic env final parameter good s)
    (hs : Situated env s) (hrun : templateKey node env s = some (key, s'))
    (hgrows : s'.types.Grows final) :
    ∃ good', Agrees s good good' ∧ Hygienic env final parameter good' s' ∧
      (∀ a ∈ key, s'.types.Has a) ∧
      ((∀ a ∈ key, good' a) ↔ Apart env parameter good s (some node)) := by
  rcases templateKey_cases hrun with ⟨rfl, hctx⟩ | ⟨hopen, hrun⟩
  · refine ⟨good, .refl, h, hs.known hctx, Apart.of_context hctx,
      fun hapart => ?_⟩
    rcases hapart node rfl with ⟨arguments, hctx', hgood⟩ | ⟨hnot, -⟩
    · rw [hctx, some.injEq, Instantiation.mk.injEq] at hctx'
      exact hctx'.2 ▸ hgood
    · simp [isInstantiating, hctx] at hnot
  · obtain ⟨good', hagrees, h', hhas, hgood⟩ :=
      openParameters_hygienic hwf (List.Subset.refl _) h hopen hgrows hrun
    refine ⟨good', hagrees, h', hhas, hgood.trans ⟨Apart.of_not_mem hopen, fun hapart => ?_⟩⟩
    rcases hapart node rfl with ⟨arguments, hctx, -⟩ | ⟨-, hnot⟩
    · simp [isInstantiating, hctx] at hopen
    · exact hnot

/-! ### References -/

section

variable (hwf : env.tree.WellFormed) (hcheck : Hygienics env final parameter check)

include hwf hcheck

/-- The declared type of what has no template parameters is good. -/
theorem checkDeclaredType_yields (h : Hygienic env final parameter good s)
    (hsym : s.bindings.symbolOf? declaration = some symbol)
    (hrole : ∀ kind, env.tree.kind? declaration = some kind →
      kind.symbolKind? ≠ some .templateParameter)
    (hgrows : s'.types.Grows final)
    (hrun : checkDeclaredType check symbol declaration env s = some (t, s')) :
    Yields env final parameter good s s' t (env.tree.templateParameters declaration = []) := by
  obtain ⟨hknown, rfl⟩ | ⟨-, s₁, hinside, rfl⟩ := checkDeclaredType_cases hrun
  · obtain ⟨hhas, hgood⟩ := h.declared hknown
    exact ⟨good, .refl, h, hhas, fun hnil => hgood declaration hsym (by simp [hnil])⟩
  · have houtside : Hygienic env final parameter good { s with context := none } := { h with }
    obtain ⟨good', hagrees, h', ht, hgood⟩ := hcheck.yields houtside ⟨(by simp), (by simp)⟩ hinside hgrows
    refine ⟨good', hagrees, { h' with }, ht, fun hnil => hgood ?_⟩
    rw [h.consistent.templateDeclarationOf hwf hsym hrole hnil]
    exact .none

omit hwf in
/-- An instance with good arguments is good. -/
theorem instantiate_yields (hframed : Framed env check) (h : Hygienic env final parameter good s)
    (hparams : env.tree.templateParameters declaration ≠ [])
    (hlength : arguments.length = (env.tree.templateParameters declaration).length)
    (hhas : ∀ a ∈ arguments, s.types.Has a)
    (hrun : instantiate check symbol declaration arguments env s = some (t, s'))
    (hgrows : s'.types.Grows final) :
    Yields env final parameter good s s' t (∀ a ∈ arguments, good a) := by
  obtain ⟨hknown, rfl⟩ | ⟨-, ⟨hknown, rfl⟩ | ⟨-, s₂, hinside, rfl⟩⟩ := instantiate_cases hrun
  · obtain ⟨ht, -, hgood⟩ := h.instances hknown
    exact ⟨good, .refl, h, ht, hgood⟩
  · obtain ⟨ht, -, hgood⟩ := h.pending hknown
    exact ⟨good, .refl, h, ht, hgood⟩
  · have hstart : Hygienic env final parameter good
        { s with context := some ⟨declaration, arguments⟩ } := { h with }
    obtain ⟨good', hagrees, h', ht, hgood⟩ := hcheck.yields hstart
      ⟨fun hi => some.inj hi ▸ hhas, fun hi => some.inj hi ▸ hlength⟩ hinside hgrows
    have hkept : ∀ a ∈ arguments, s₂.types.Has a := fun a ha =>
      (hframed.frame hinside).grows.has (hhas a ha)
    have hinst : (∀ a ∈ arguments, good a) → good' t := fun hargs => hgood (by
      rw [Tree.WellFormed.templateDeclarationOf_self hparams]
      exact .of_context rfl hargs)
    have hrestored : Hygienic env final parameter good' { s₂ with context := s.context } :=
      { h' with }
    refine ⟨good', hagrees, hrestored.modifyLinks (fun _ => rfl) (fun _ => .inl)
      fun key u hu => ?_, ht, hinst⟩
    rcases OrderedMap.find?_insert_cases hu with ⟨rfl, rfl⟩ | hu
    · exact .inr ⟨ht, hkept, fun hargs => hinst ((hagrees.all hhas).mp hargs)⟩
    · exact .inl hu

/-- What has no template parameters is good, unless it is itself a template parameter that can be
the tracked one. -/
theorem checkReferent_yields {symbol : Symbol} (h : Hygienic env final parameter good s)
    (hs : Situated env s) (hrefers : Refers env s template node id symbol declaration)
    (hplain : env.tree.templateParameters declaration = []) (hgrows : s'.types.Grows final)
    (hrun : checkReferent check id symbol.kind declaration env s = some (t, s')) :
    Yields env final parameter good s s' t (Apart env parameter good s template) := by
  obtain ⟨nodeKind, hnKind, hsymKind⟩ := hrefers.kind h.consistent
  obtain ⟨hkind, hrun⟩ | ⟨hkind, ⟨hknown, rfl⟩ | hrun⟩ | ⟨hnotParameter, hnotNamespace, hrun⟩ :=
    checkReferent_cases hrun
  · obtain ⟨outer, houter, hp⟩ := hrefers.visible.parameter hwf h.consistent hrefers.found hkind
      hrefers.declared
    rw [← hrefers.inside, houter]
    exact checkTemplateParameter_yields hwf hp h hs hgrows hrun
  · obtain ⟨ht, hgood⟩ := h.namespaces hknown
    exact ⟨good, .refl, h, ht, fun _ => hgood⟩
  · obtain ⟨good', hagrees, h', ht, hgood⟩ := hcheck.yields h hs hrun hgrows
    refine ⟨good', hagrees, h', ht, fun _ => hgood ?_⟩
    have hrole : nodeKind.role = .statement := by
      rw [hkind] at hsymKind
      cases nodeKind <;> simp_all [NodeKind.role]
    rw [hwf.templateDeclarationOf_statement hnKind hrole hplain]
    exact .none
  · have hsym := symbolOf_of_node h.consistent hrefers.found hrefers.declared hnotNamespace
    obtain ⟨good', hagrees, h', ht, hgood⟩ := checkDeclaredType_yields hwf hcheck h hsym
      (fun kind hkind heq => hnotParameter (by
        rw [hnKind, some.injEq] at hkind
        rw [hkind, heq] at hsymKind
        exact (some.inj hsymKind).symm)) hgrows hrun
    exact ⟨good', hagrees, h', ht, fun _ => hgood hplain⟩

/-- A reference in a place that is apart from the parameter, with good arguments, stands for a good
type. -/
theorem checkDeclaredReference_yields {symbol : Symbol} {q : Prop} (hframed : Framed env check)
    (h : Hygienic env final parameter good s) (hs : Situated env s)
    (hrefers : Refers env s template node id symbol declaration)
    (hgiven : ∀ a ∈ given, s.types.Has a ∧ (q → good a))
    (hapart : q → Apart env parameter good s template)
    (hrun : checkDeclaredReference check node id symbol.kind declaration given env s = some (t, s'))
    (hgrows : s'.types.Grows final) : Yields env final parameter good s s' t q := by
  obtain ⟨nodeKind, hnKind, hsymKind⟩ := hrefers.kind h.consistent
  obtain ⟨htabl, hparams, known, s₁, s₂, s₃, fitted, hdecl, hquiet, hlength, hfitted,
    hinst, rfl⟩ | ⟨hnot, s₁, hrefnt, hquiet⟩ := checkDeclaredReference_cases hrun
  · have hnotParameter : ∀ kind, env.tree.kind? declaration = some kind →
        kind.symbolKind? ≠ some .templateParameter := by
      rintro kind hkind heq
      rw [hnKind, some.injEq] at hkind
      rw [hkind, heq, some.injEq] at hsymKind
      simp [← hsymKind, SymbolKind.isTemplatable] at htabl
    have hsym := symbolOf_of_node h.consistent hrefers.found hrefers.declared
      (fun heq => by simp [heq, SymbolKind.isTemplatable] at htabl)
    have hframe₁ := checkDeclaredType_frame hframed hdecl
    have hframe₂ : Frame none s₁ s₂ := .ofQuiet hquiet
    have hframe₃ := instantiate_frame hframed hinst
    obtain ⟨good₁, hagrees₁, h₁, -⟩ := checkDeclaredType_yields hwf hcheck h hsym hnotParameter
      ((hframe₂.grows.trans hframe₃.grows).trans hgrows) hdecl
    have hhas : ∀ a ∈ fitted, s₂.types.Has a := fun a ha => (hfitted a ha).elim
      (fun ha => (hframe₁.trans hframe₂).grows.has (hgiven a ha).1)
      (fun heq => heq ▸ hframe₂.grows.has h₁.error.1)
    obtain ⟨good₃, hagrees₃, h₃, ht, hgood⟩ := instantiate_yields hcheck hframed
      (h₁.quiet hquiet) hparams hlength hhas hinst hgrows
    refine ⟨good₃, hagrees₁.trans (hframe₁.trans hframe₂).grows hagrees₃, { h₃ with }, ht,
      fun hq => hgood fun a ha => ?_⟩
    rcases hfitted a ha with ha | rfl
    · exact (hagrees₁ (hgiven a ha).1).mpr ((hgiven a ha).2 hq)
    · exact h₁.error.2
  · have hplain : env.tree.templateParameters declaration = [] := by
      by_contra hne
      refine hne (hnot ?_)
      rw [Tree.templateParameters, hnKind] at hne
      exact NodeKind.isTemplatable_of_templateParameters hne hsymKind
    have htypes : s'.types = s₁.types := hquiet.types
    obtain ⟨good', hagrees, h', ht, hgood⟩ := checkReferent_yields hwf hcheck h hs hrefers hplain
      (htypes ▸ hgrows) hrefnt
    have hnoted : Hygienic env final parameter good'
        { s₁ with references := ⟨node, declaration, [], t⟩ :: s₁.references } := { h' with }
    exact ⟨good', hagrees, hnoted.quiet hquiet, htypes ▸ ht, fun hq => hgood (hapart hq)⟩

end

end ApiSchema.Checking
