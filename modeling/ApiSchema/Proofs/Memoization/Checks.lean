import ApiSchema.Proofs.Memoization.Entries

/-!
# Checks keep one type for each argument list

A model or an interface is constructed only if nothing is found for its arguments, and is found from
then on: first under construction, later recorded. An instance is constructed by a reference that
has seen to it that the declaration itself is found, so that the parameters of the declaration have
been left open and the arguments are others. This is shown for references, for steps and for the
checks of all nodes.
-/

namespace ApiSchema.Checking

open OrderedMap State Option

variable {env : Environment} {check : Check} {d : Subject} {s s' s₁ s₂ : State} {t : TypeId}
  {own arguments key known marks given : List TypeId} {node declaration : NodeId} {kind : NodeKind}
  {template : Option NodeId} {floor : Nat} {stub : TypeShape} {isTemplate : Bool}
  {symbol : SymbolId}

/-- If an instance of the declaration is being checked, it is under construction. -/
def Entered (d : Subject) (s : State) : Prop :=
  ∀ arguments, s.context = some ⟨d.node, arguments⟩ →
    ∃ t, s.pending.find? (d.node, arguments) = some t

theorem Entered.congr (h : Entered d s) (hctx : s'.context = s.context)
    (hpend : ∀ key, s'.pending.find? (d.node, key) = s.pending.find? (d.node, key)) :
    Entered d s' := by
  intro arguments hi
  rw [hpend]
  exact h arguments (hctx ▸ hi)

theorem Entered.frame {own : Option TypeId} (h : Entered d s) (hframe : Frame own s s') :
    Entered d s' :=
  h.congr hframe.context fun _ => by rw [hframe.pending]

/-- Outside the instances of the declaration there is nothing to be under construction. -/
theorem Entered.outside (h : s.isInstantiating d.node = false) : Entered d s := by
  intro arguments hctx
  simp [isInstantiating, hctx] at h

/-- A check keeps one type for each argument list of a declaration. The check of the declaration
itself, outside its instances, finds the type for its open parameters; within an instance of which
nothing is found it constructs the type to be recorded. -/
structure Memoizes (env : Environment) (d : Subject) (check : Check) : Prop where
  keeps {node : NodeId} {s s' : State} {t : TypeId} : Memoized env.tree d s → Entered d s →
    check node env s = some (t, s') → Memoized env.tree d s'
  declares {s s' : State} {t : TypeId} : Memoized env.tree d s →
    s.isInstantiating d.node = false → check d.node env s = some (t, s') →
    ∃ own, s'.openKey? env.tree d.node = some own ∧ s'.lookup? env.tree d own = some t
  instantiates {s s' : State} {t : TypeId} {own arguments : List TypeId} :
    Memoized env.tree d s → env.tree.templateParameters d.node ≠ [] →
    s.context = some ⟨d.node, arguments⟩ → arguments ≠ [] →
    s.openKey? env.tree d.node = some own → arguments ≠ own →
    s.lookup? env.tree d arguments = none → check d.node env s = some (t, s') →
    Memoized env.tree d (s'.addInstance d.symbol arguments t)

/-! ### Template parameters -/

theorem checkTemplateParameter_memoized {p : NodeId} (h : Memoized env.tree d s)
    (hrun : checkTemplateParameter p env s = some (t, s')) : Memoized env.tree d s' := by
  rcases checkTemplateParameter_cases hrun with ⟨rfl, -⟩ | ⟨-, ⟨rfl, -⟩ | ⟨hnone, -, rfl⟩⟩
  · exact h
  · exact h
  · have hadded : Memoized env.tree d (s.addRow ⟨some p, .templateParameter⟩) :=
      h.addRow (by simp)
    refine hadded.transfer rfl (fun _ => rfl) rfl (fun {q u} hq => ?_) (.refl _)
      (fun hrow => hrow.has) fun _ hr _ => hr
    rw [find?_insert, if_neg fun heq => by
      rw [heq, show (s.addRow _).parameterTypes.find? p = s.parameterTypes.find? p from rfl,
        hnone] at hq
      simp at hq]
    exact hq

/-- The key of a declaration is the arguments of the instance that is being checked, or that of its
open parameters. -/
theorem templateKey_memoized (hwf : env.tree.WellFormed) (h : Memoized env.tree d s)
    (hrun : templateKey node env s = some (key, s')) :
    Memoized env.tree d s' ∧ ((s' = s ∧ s.context = some ⟨node, key⟩) ∨
      s.isInstantiating node = false ∧ s'.openKey? env.tree node = some key) := by
  rcases templateKey_cases hrun with ⟨rfl, hctx⟩ | ⟨hopen, hrun⟩
  · exact ⟨h, Or.inl ⟨rfl, hctx⟩⟩
  · exact ⟨mapM_preserves h checkTemplateParameter_memoized hrun,
      Or.inr ⟨hopen, openParameters_find hwf (List.Subset.refl _) hopen hrun⟩⟩

/-! ### References -/

namespace Memoized

variable (h : Memoized env.tree d s)

include h

/-- The declared type is what is found for the open parameters. -/
theorem lookup_of_declared (ht : s.declaredType? d.symbol = some t) :
    ∃ own, s.openKey? env.tree d.node = some own ∧ s.lookup? env.tree d own = some t := by
  obtain ⟨own, hown⟩ := h.declared ht
  have hrec : s.recorded? env.tree d own = some t := by rw [recorded?, if_pos hown, ht]
  refine ⟨own, hown, ?_⟩
  cases hpend : s.pending.find? (d.node, own) with
  | none => rw [lookup?, hpend, none_or, hrec]
  | some u => simp [h.exclusive hpend] at hrec

/-- An instance is what is found for its arguments. -/
theorem lookup_of_instance
    (hparams : env.tree.templateParameters d.node ≠ [])
    (ht : (s.linksOf d.symbol).instances.find? arguments = some t) :
    s.lookup? env.tree d arguments = some t := by
  have hrec : s.recorded? env.tree d arguments = some t := by
    rw [recorded?]
    split
    next hown =>
      rw [← h.template hparams hown, ht]
    · exact ht
  cases hpend : s.pending.find? (d.node, arguments) with
  | none => rw [lookup?, hpend, none_or, hrec]
  | some u => simp [h.exclusive hpend] at hrec

/-- Arguments for which nothing is found when the declaration itself is found are not its open
parameters, and there is no instance for them. -/
theorem lookup_eq_none_of_instance
    (hparams : env.tree.templateParameters d.node ≠ [])
    (hown : s.openKey? env.tree d.node = some own) (hdecl : s.lookup? env.tree d own = some t)
    (hinst : (s.linksOf d.symbol).instances.find? arguments = none)
    (hpend : s.pending.find? (d.node, arguments) = none) :
    arguments ≠ own ∧ s.lookup? env.tree d arguments = none := by
  have hne : arguments ≠ own := by
    rintro rfl
    rw [lookup?, hpend, none_or, recorded?, if_pos hown,
      ← h.template hparams hown, hinst] at hdecl
    simp at hdecl
  refine ⟨hne, ?_⟩
  rw [lookup?, hpend, none_or, recorded?, hown,
    if_neg fun heq => hne (some.inj heq).symm, hinst]

/-- A reference that stands for what is found can be noted. -/
theorem noted {r : Reference}
    (hr : r.declaration = d.node → s.lookup? env.tree d r.arguments = some r.type) :
    Memoized env.tree d { s with references := r :: s.references } :=
  { h with
    references := fun {q} hq hdecn => by
      rcases List.mem_cons.mp hq with rfl | hq
      · exact hr hdecn
      · exact h.references hq hdecn }

/-- The declaration is a model or an interface. -/
theorem symbolKind_ne {symbolKind : SymbolKind}
    (hkind : env.tree.kind? d.node = some kind) (hmodel : symbolKind ≠ .model)
    (hiface : symbolKind ≠ .interfaceKind) : kind.symbolKind? ≠ some symbolKind := by
  intro heq
  obtain ⟨nodeKind, hnKind, hable⟩ := h.kind
  obtain rfl := mem_unique hkind hnKind
  rcases NodeKind.symbolKind?_of_isInstantiable hable with hsym | hsym
  · exact hmodel (mem_unique heq hsym)
  · exact hiface (mem_unique heq hsym)

/-- A node of another kind is another node. -/
theorem ne_of_kind (hkind : env.tree.kind? node = some kind)
    (hother : kind.isInstantiable = false) :
    node ≠ d.node := by
  rintro rfl
  obtain ⟨nodeKind, hnKind, hable⟩ := h.kind
  obtain rfl := mem_unique hkind hnKind
  simp [hother] at hable

/-- The declaration is listed in its namespace. -/
theorem isListed : env.tree.isListed d.node = true := by
  obtain ⟨kind, hkind, hable⟩ := h.kind
  rw [Tree.isListed, hkind]
  cases kind <;> simp_all [NodeKind.isInstantiable]

/-- What is found stays what is found. -/
theorem lookup_mono (h' : Memoized env.tree d s')
    (hgrows : s.types.Grows s'.types)
    (hkey : ∀ {own}, s.openKey? env.tree d.node = some own → s'.openKey? env.tree d.node = some own)
    (ht : s.lookup? env.tree d arguments = some t) : s'.lookup? env.tree d arguments = some t := by
  obtain ⟨own, hown, hnil, hrow⟩ := h.entries ht
  obtain ⟨own', hown', hfound⟩ := h'.rows (hgrows.instantiates hrow)
  obtain rfl := mem_unique (hkey hown) hown'
  by_cases heq : arguments = own
  · rwa [if_pos heq, if_pos rfl, ← heq] at hfound
  · have hne : arguments ≠ [] := fun hnone => heq (hnone.trans (hnil hnone).symm)
    rwa [if_neg heq, if_neg hne] at hfound

end Memoized

section

variable (hcheck : Memoizes env d check)

include hcheck

/-- The declared type of the declaration is what is found for its open parameters. -/
theorem checkDeclaredType_memoized (h : Memoized env.tree d s)
    (hsym : s.bindings.symbolOf? declaration = some symbol)
    (hrun : checkDeclaredType check symbol declaration env s = some (t, s')) :
    Memoized env.tree d s' ∧ (declaration = d.node →
      ∃ own, s'.openKey? env.tree d.node = some own ∧ s'.lookup? env.tree d own = some t) := by
  obtain ⟨hknown, rfl⟩ | ⟨-, s₁, hinside, rfl⟩ := checkDeclaredType_cases hrun
  · refine ⟨h, fun heq => h.lookup_of_declared ?_⟩
    rw [heq, h.bound, some.injEq] at hsym
    rwa [hsym]
  · have houtside : Memoized env.tree d { s with context := none } := { h with }
    have h₁ := hcheck.keeps houtside (.outside rfl) hinside
    refine ⟨{ h₁ with }, ?_⟩
    rintro rfl
    obtain ⟨own, hown, ht⟩ := hcheck.declares houtside rfl hinside
    exact ⟨own, hown, ht⟩

/-- An instance is what is found for its arguments, if the declaration itself is found. -/
theorem instantiate_memoized (h : Memoized env.tree d s)
    (hsym : s.bindings.symbolOf? declaration = some symbol)
    (hparams : env.tree.templateParameters declaration ≠ [])
    (hlength : arguments.length = (env.tree.templateParameters declaration).length)
    (hfound : declaration = d.node →
      ∃ own t, s.openKey? env.tree d.node = some own ∧ s.lookup? env.tree d own = some t)
    (hframed : Framed env check)
    (hrun : instantiate check symbol declaration arguments env s = some (t, s')) :
    Memoized env.tree d s' ∧ (declaration = d.node → s'.lookup? env.tree d arguments = some t) := by
  by_cases heq : declaration = d.node
  · subst heq
    obtain rfl : d.symbol = symbol := mem_unique h.bound hsym
    obtain ⟨hknown, rfl⟩ | ⟨hinst, ⟨hknown, rfl⟩ | ⟨hpend, s₁, hinside, rfl⟩⟩ :=
      instantiate_cases hrun
    · exact ⟨h, fun _ => h.lookup_of_instance hparams hknown⟩
    · exact ⟨h, fun _ => by rw [lookup?, hknown, some_or]⟩
    · obtain ⟨own, u, hown, hu⟩ := hfound rfl
      obtain ⟨hne, hnone⟩ := h.lookup_eq_none_of_instance hparams hown hu hinst hpend
      have hnil : arguments ≠ [] := by
        rintro rfl
        exact hparams (List.length_eq_zero_iff.mp hlength.symm)
      have hstart : Memoized env.tree d { s with context := some ⟨d.node, arguments⟩ } := { h with }
      have h₁ := hcheck.instantiates hstart hparams rfl hnil hown hne hnone hinside
      have hinsts := h₁.lookup_of_instance (t := t) hparams (by
        rw [linksOf_addInstance, find?_insert_self])
      exact ⟨{ h₁ with }, fun _ => hinsts⟩
  · refine ⟨?_, fun hsame => absurd hsame heq⟩
    obtain ⟨-, rfl⟩ | ⟨-, ⟨-, rfl⟩ | ⟨-, s₁, hinside, rfl⟩⟩ := instantiate_cases hrun
    · exact h
    · exact h
    · have hstart : Memoized env.tree d { s with context := some ⟨declaration, arguments⟩ } :=
        { h with }
      have h₁ := hcheck.keeps hstart (.outside (by simp [isInstantiating, heq])) hinside
      have hrestored : Memoized env.tree d { s₁ with context := s.context } := { h₁ with }
      refine hrestored.modifyLinks (hrestored.symbol_ne heq ?_)
      exact (congrArg (fun b => b.symbolOf? declaration) (hframed.frame hinside).bindings).trans
        hsym

/-- A reference to the declaration stands for what is found for its arguments. -/
theorem checkDeclaredReference_memoized (hframed : Framed env check) {id : SymbolId}
    {symbol : Symbol} (h : Memoized env.tree d s) (hent : Entered d s)
    (hrefers : Refers env s template node id symbol declaration)
    (hrun : checkDeclaredReference check node id symbol.kind declaration given env s =
      some (t, s')) : Memoized env.tree d s' := by
  obtain ⟨nodeKind, hnKind, hsymKind⟩ := hrefers.kind h.consistent
  obtain ⟨htabl, hparams, known, s₁, s₂, s₃, fitted, hdecl, hquiet, hlength, -,
    hinst, rfl⟩ | ⟨hnot, s₁, hrefnt, hquiet⟩ := checkDeclaredReference_cases hrun
  · have hsym := symbolOf_of_node h.consistent hrefers.found hrefers.declared
      (fun heq => by simp [heq, SymbolKind.isTemplatable] at htabl)
    have hsym₂ : s₂.bindings.symbolOf? declaration = some id := by
      rw [hquiet.bindings, (checkDeclaredType_frame hframed hdecl).bindings]
      exact hsym
    obtain ⟨h₁, hfound⟩ := checkDeclaredType_memoized hcheck h hsym hdecl
    have hfound₂ : declaration = d.node →
        ∃ own t, s₂.openKey? env.tree d.node = some own ∧ s₂.lookup? env.tree d own = some t := by
      intro heq
      obtain ⟨own, hown, hu⟩ := hfound heq
      rw [hquiet.eq]
      exact ⟨own, known, hown, hu⟩
    obtain ⟨h₃, hlookup⟩ := instantiate_memoized hcheck (h₁.quiet hquiet) hsym₂ hparams
      hlength hfound₂ hframed hinst
    exact h₃.noted fun heq => hlookup heq
  · refine Memoized.quiet ?_ hquiet
    obtain ⟨hkind, hrun⟩ | ⟨hkind, ⟨-, rfl⟩ | hrun⟩ | ⟨-, hns, hrun⟩ :=
      checkReferent_cases hrefnt
    · refine (checkTemplateParameter_memoized h hrun).noted fun heq => ?_
      exact absurd hsymKind (h.symbolKind_ne (heq ▸ hnKind) (by simp [hkind]) (by simp [hkind]))
    · refine h.noted fun heq => ?_
      exact absurd hsymKind (h.symbolKind_ne (heq ▸ hnKind) (by simp [hkind]) (by simp [hkind]))
    · refine (hcheck.keeps h hent hrun).noted fun heq => ?_
      exact absurd hsymKind (h.symbolKind_ne (heq ▸ hnKind) (by simp [hkind]) (by simp [hkind]))
    · have hsym := symbolOf_of_node h.consistent hrefers.found hrefers.declared hns
      obtain ⟨h₁, hfound⟩ := checkDeclaredType_memoized hcheck h hsym hrun
      refine h₁.noted fun heq => ?_
      have hplain : env.tree.templateParameters declaration = [] := by
        by_contra hne
        refine hne (hnot ?_)
        rw [Tree.templateParameters, hnKind] at hne
        exact NodeKind.isTemplatable_of_templateParameters hne hsymKind
      obtain ⟨own, hown, ht⟩ := hfound heq
      rw [openKey?, ← heq, hplain] at hown
      cases hown
      exact ht

/-! ### Steps -/

/-- Every step keeps one type for each argument list. -/
theorem Step.memoized (hframed : Framed env check) {own : Option TypeId} {m m' : Moment}
    (hstep : Step env check template own floor m m') (h : Memoized env.tree d m.state)
    (hent : Entered d m.state) : Memoized env.tree d m'.state := by
  cases hstep with
  | quiet hquiet => exact h.quiet hquiet
  | raise => exact h.raise _
  | error | look => exact h
  | call _ hrun => exact hcheck.keeps h hent hrun
  | refer hrefers _ hrun =>
    exact checkDeclaredReference_memoized hcheck hframed h hent hrefers hrun
  | @push _ _ _ shape _ _ hplain _ _ _ hfin =>
    refine Memoized.finished (h.addRow fun {_ _} horigin => ?_) hfin
    cases shape <;> simp_all
  | assemble hkind _ =>
    refine h.addRow fun {_ template} horigin => ?_
    cases horigin
    exact ⟨fun heq => h.ne_of_kind hkind rfl (some.inj heq), by simp [ModelType.anonymous]⟩
  | amend _ hamended => exact h.modifyShape fun hshape => (hamended hshape).grown
  | note => exact { h with }

/-- So does all work. -/
theorem Leads.memoized (hframed : Framed env check) {own : Option TypeId} {P : List TypeId → Prop}
    (hleads : Leads env check template own floor s known s' P) (h : Memoized env.tree d s)
    (hent : Entered d s) : Memoized env.tree d s' := by
  obtain ⟨known', hwork, -⟩ := hleads
  have hall := hwork.preserves (P := fun m => Memoized env.tree d m.state ∧ Entered d m.state)
    (fun hstep hm => ⟨hstep.memoized hcheck hframed hm.1 hm.2,
      hm.2.frame (hstep.frame hframed)⟩) ⟨h, hent⟩
  exact hall.1

theorem Completes.memoized (hframed : Framed env check) {type : TypeId}
    (hcomps : Completes env check template type floor s s₁ s' known) (h : Memoized env.tree d s)
    (hent : Entered d s) : Memoized env.tree d s' := by
  obtain ⟨finish, hfin, -⟩ := hcomps.finished
  exact (hcomps.filled.memoized hcheck hframed h hent).finished hfin

/-! ### Checks -/

section

variable (hwf : env.tree.WellFormed) (hframed : Framed env check)

include hwf hframed

/-- What is built from a stub keeps one type for each argument list, and is still under
construction afterwards. -/
theorem Built.memoized
    (hbuilt : Built env check d.node s.types.nextId stub marks (s.opened d.node key stub marks) s')
    (h : Memoized env.tree d (s.opened d.node key stub marks))
    (hent : Entered d (s.opened d.node key stub marks)) (building : List TypeId) :
    Memoized env.tree d { s' with building } ∧
      s'.pending.find? (d.node, key) = some s.types.nextId ∧
      (∀ {own}, s.openKey? env.tree d.node = some own →
        s'.openKey? env.tree d.node = some own) := by
  obtain ⟨_, hcomps⟩ := hbuilt.completes hwf hframed
  have hframe := hcomps.frame hframed
  have h' := hcomps.memoized hcheck hframed h hent
  refine ⟨{ h' with }, ?_, openKey?_mono hframe.parameters⟩
  rw [hframe.pending]
  exact find?_insert_self _ _ _

/-- The declaration itself is constructed and recorded. -/
theorem construct_memoized (h : Memoized env.tree d s) (hopen : s.isInstantiating d.node = false)
    (hset : s.settledType? d.node = none) (hkey : templateKey d.node env s = some (key, s₁))
    (hpend : s₁.pending.find? (d.node, key) = none)
    (horigin : stub.origin? = some ([], template))
    (hbuilt : Built env check d.node s₁.types.nextId stub marks
      (s₁.opened d.node key stub marks) s₂) (hclosed : Closed env.tree d.node key s₁.types.nextId
      (!(env.tree.templateParameters d.node).isEmpty) false { s₂ with building := s₁.building } s') :
    Memoized env.tree d s' ∧ s'.declaredType? d.symbol = some s₁.types.nextId := by
  have hframe : Frame none s s₁ := templateKey_frame hkey
  obtain ⟨h₁, ⟨-, hctx⟩ | ⟨-, hown⟩⟩ := templateKey_memoized hwf h hkey
  · simp [isInstantiating, hctx] at hopen
  have hopen₁ : s₁.isInstantiating d.node = false := by
    rwa [isInstantiating, hframe.context]
  have hnone : s₁.lookup? env.tree d key = none := by
    rw [settledType?, if_neg (by simp [hopen]), declaredTypeOfNode?, h.bound,
      bind_some] at hset
    rw [lookup?, hpend, none_or, recorded?, if_pos hown, declaredType?,
      linksOf, templateKey_links hkey]
    exact hset
  have hopened : Memoized env.tree d (s₁.opened d.node key stub marks) :=
    h₁.opened hown id hnone (by rw [if_pos rfl]; exact horigin)
  obtain ⟨h₂, hstill, hkey₂⟩ := hbuilt.memoized hcheck hwf hframed hopened (.outside hopen₁)
    s₁.building
  cases hclosed with
  | declared heq =>
    rw [h₂.bound, enlist_declare] at heq
    have hlisted := h₂.filled (enlist_filled _ env.tree d.node s₁.types.nextId)
    have hkey₃ : (enlist { s₂ with building := s₁.building } env.tree d.node
        s₁.types.nextId).openKey? env.tree d.node = some key := by
      rw [enlist_eq]
      exact hkey₂ hown
    have hstill₃ : (enlist { s₂ with building := s₁.building } env.tree d.node
        s₁.types.nextId).pending.find? (d.node, key) = some s₁.types.nextId := by
      rw [enlist_eq]
      exact hstill
    subst heq
    exact ⟨hlisted.close hkey₃ hstill₃, declaredType?_declare _ _ _ _ _ _⟩

/-- An instance is constructed. It is recorded by the reference that asked for it. -/
theorem constructInstance_memoized (h : Memoized env.tree d s)
    (hctx : s.context = some ⟨d.node, arguments⟩) (hnil : arguments ≠ [])
    (hown : s.openKey? env.tree d.node = some own) (hne : arguments ≠ own)
    (hnone : s.lookup? env.tree d arguments = none)
    (horigin : stub.origin? = some (arguments, template))
    (hbuilt : Built env check d.node s.types.nextId stub marks
      (s.opened d.node arguments stub marks) s₂)
    (hclosed : Closed env.tree d.node arguments s.types.nextId isTemplate true
      { s₂ with building := s.building } s') :
    Memoized env.tree d (s'.addInstance d.symbol arguments s.types.nextId) := by
  have hopened : Memoized env.tree d (s.opened d.node arguments stub marks) :=
    h.opened hown (fun heq => absurd heq hnil) hnone (by rw [if_neg hne]; exact horigin)
  have hent : Entered d (s.opened d.node arguments stub marks) := by
    intro other hother
    obtain ⟨-, rfl⟩ := Instantiation.mk.inj (mem_unique hctx hother)
    exact ⟨_, find?_insert_self _ _ _⟩
  obtain ⟨h₂, hstill, hkey₂⟩ := hbuilt.memoized hcheck hwf hframed hopened hent s.building
  cases hclosed with
  | instantiated => exact h₂.closeInstance (hkey₂ hown) hne hstill

/-- Something else is constructed. -/
theorem constructOther_memoized {instantiating : Bool} (hnode : node ≠ d.node)
    (h : Memoized env.tree d s) (hent : Entered d s)
    (horigin : ∃ arguments, stub.origin? = some (arguments,
      if (env.tree.templateParameters node).isEmpty then none else some node))
    (hbuilt : Built env check node s.types.nextId stub marks (s.opened node key stub marks) s₂)
    (hclosed : Closed env.tree node key s.types.nextId isTemplate instantiating
      { s₂ with building := s.building } s') : Memoized env.tree d s' := by
  have hother : ∀ other, (d.node, other) ≠ (node, key) := fun other heq =>
    hnode (Prod.mk.inj heq).1.symm
  have hadded : Memoized env.tree d (s.addRow ⟨some node, stub⟩) := by
    refine h.addRow fun {_ template} heq => ⟨fun hsame => hnode (some.inj hsame), ?_⟩
    obtain ⟨arguments, horigin⟩ := horigin
    obtain ⟨-, rfl⟩ := Prod.mk.inj (mem_unique horigin heq)
    split
    · simp
    · exact fun hsame => hnode (some.inj hsame)
  have hpend : ∀ other, (s.opened node key stub marks).pending.find? (d.node, other) =
      s.pending.find? (d.node, other) := by
    intro other
    rw [opened, find?_insert, if_neg (hother other)]
  have hopened : Memoized env.tree d (s.opened node key stub marks) := hadded.repend hpend
  obtain ⟨_, hcomps⟩ := hbuilt.completes hwf hframed
  have h₂ := hcomps.memoized hcheck hframed hopened (hent.congr rfl hpend)
  have h₃ : Memoized env.tree d { s₂ with building := s.building } := { h₂ with }
  have herase : ∀ (pending : OrderedMap (NodeId × List TypeId) TypeId) other,
      (pending.erase (node, key)).find? (d.node, other) = pending.find? (d.node, other) := by
    intro pending other
    rw [find?_erase, if_neg (hother other)]
  cases hclosed with
  | instantiated => exact h₃.repend (herase _)
  | declared heq =>
    have h₄ := (h₃.declare hnode s.types.nextId s.types.nextId isTemplate key).filled
      (enlist_filled _ env.tree node s.types.nextId)
    rw [← heq] at h₄
    exact h₄.repend (herase _)

/-- Every check keeps one type for each argument list. -/
theorem Evaluates.memoized (heval : Evaluates env check node s t s') (h : Memoized env.tree d s)
    (hent : Entered d s) : Memoized env.tree d s' := by
  cases heval with
  | work _ hleads => exact hleads.memoized hcheck hframed h hent
  | union _ _ hleads =>
    exact (hleads.memoized hcheck hframed h hent).addRow (by simp)
  | known | visited => exact h
  | parameter _ hrun => exact checkTemplateParameter_memoized h hrun
  | @literal _ _ literal _ hrun =>
    rcases checkLiteral_cases hrun with ⟨rfl, -⟩ | ⟨-, -, rfl⟩
    · exact h
    · have hadded : Memoized env.tree d (s.addRow ⟨some node, literal.shape⟩) :=
        h.addRow (by cases literal <;> simp)
      exact { hadded with }
  | @intrinsic name hkind _ =>
    have hadded : Memoized env.tree d (s.addRow ⟨some node, .intrinsic name⟩) :=
      h.addRow (by simp)
    exact hadded.declare (h.ne_of_kind hkind rfl) _ _ _ _
  | pending hkey => exact (templateKey_memoized hwf h hkey).1
  | @construct s₁ s₂ _ key stub marks hset hkey hpend horigin _ _ hbuilt hclosed =>
    obtain ⟨h₁, hcases⟩ := templateKey_memoized hwf h hkey
    have hframe : Frame none s s₁ := templateKey_frame hkey
    by_cases hnode : node = d.node
    · subst hnode
      rcases hcases with ⟨rfl, hctx⟩ | ⟨hopen, hown⟩
      · obtain ⟨u, hu⟩ := hent key hctx
        simp [hu] at hpend
      · rw [hopen] at horigin hclosed
        exact (construct_memoized hcheck hwf hframed h hopen hset hkey hpend horigin hbuilt
          hclosed).1
    · exact constructOther_memoized hcheck hwf hframed hnode h₁ (hent.frame hframe)
        ⟨_, horigin⟩ hbuilt hclosed
  | @expression s₁ members hkind hmems =>
    have hadded : Memoized env.tree d (s.addRow ⟨some node, .model .anonymous⟩) := by
      refine h.addRow fun {_ template} horigin => ?_
      cases horigin
      exact ⟨fun heq => h.ne_of_kind hkind rfl (some.inj heq), by simp [ModelType.anonymous]⟩
    have h₁ := (checkExpression_leads hwf hframed hkind hmems).memoized hcheck hframed
      { hadded with } (hent.congr rfl fun _ => rfl)
    exact { h₁ with }
  | @enum s₁ s₂ s₃ _ parts e members hkind _ hbefore hempty _ henum heq =>
    have hne := h.ne_of_kind hkind rfl
    have h₁ := hbefore.memoized hcheck hframed h hent
    have hadded : Memoized env.tree d (s₁.addRow ⟨some node, .enumType e⟩) :=
      h₁.addRow (by simp)
    have hdecl := hadded.declare hne s₁.types.nextId s₁.types.nextId false []
    have hframe : Frame none s₁ (s₁.entered node (.enumType e)) :=
      Frame.trans (.addRow (by simp)) (declare_frame _ _ _ _ _)
    have hcomps := henum.completes hwf hframed s₁.types.size hkind (entered_shape _ _) hempty
    have h₂ := hcomps.memoized hcheck hframed hdecl
      ((hent.frame (hbefore.frame hframed)).frame hframe)
    exact heq ▸ h₂.filled (enlist_filled _ _ _ _)
  | @operation s₁ s₂ _ parts operation hkind _ _ _ _ hleads hfin heq =>
    have hne := h.ne_of_kind hkind rfl
    have h₁ := hleads.memoized hcheck hframed h hent
    have hadded : Memoized env.tree d (s₁.addRow ⟨some node, .operation operation⟩) :=
      h₁.addRow (by simp)
    have hdecl := (hadded.finished hfin).declare hne s₁.types.nextId s₁.types.nextId false []
    exact heq ▸ hdecl.filled (enlist_filled _ _ _ _)
  | cyclicAlias _ hkey _ hquiet => exact (templateKey_memoized hwf h hkey).1.quiet hquiet
  | untyped => exact h.raise _
  | @aliased s₁ s₂ _ parts key hkind _ hkey hvalue =>
    have h₁ := (templateKey_memoized hwf h hkey).1
    have hframe : Frame none s s₁ := templateKey_frame hkey
    have hopened : Memoized env.tree d (s₁.openAlias (node, key)) := { h₁ with }
    have h₂ := hcheck.keeps hopened ((hent.frame hframe).congr rfl fun _ => rfl) hvalue
    have h₃ : Memoized env.tree d (s₂.leaveAlias (node, key)) := { h₂ with }
    dsimp only [closeAlias]
    split
    · exact h₃
    · exact h₃.declare (h.ne_of_kind hkind rfl) _ _ _ _
  | @contents s₁ s₂ _ _ parts decorators _ _ _ hleads hdec hstmts =>
    have hmarked : Memoized env.tree d (s.visiting node) := { h with }
    have hent₁ : Entered d (s.visiting node) := hent.congr rfl fun _ => rfl
    have h₁ := hleads.memoized hcheck hframed hmarked hent₁
    have hfilled : Filled s₁ _ := Or.inr ⟨t, _, fun n => .decorate n decorators, rfl⟩
    have h₂ := (h₁.filled hfilled).decorated hdec
    have hframe : Frame none s₁ s₂ := hfilled.frame.trans (.ofDecorated hdec)
    have hent₂ := (hent₁.frame (hleads.frame hframed)).frame hframe
    refine (visits_preserves (P := fun s => Memoized env.tree d s ∧ Entered d s) ⟨h₂, hent₂⟩
      (fun h hrun => ?_) hstmts).1
    exact ⟨hcheck.keeps h.1 h.2 hrun, h.2.frame (hframed.frame hrun)⟩

/-- The check of the declaration outside its instances finds the type for its open parameters. -/
theorem Evaluates.declares (heval : Evaluates env check d.node s t s') (h : Memoized env.tree d s)
    (hopen : s.isInstantiating d.node = false) :
    ∃ own, s'.openKey? env.tree d.node = some own ∧ s'.lookup? env.tree d own = some t := by
  have hlisted := h.isListed
  cases heval with
  | work hnot | literal hnot => simp [Tree.isListed_of_isRemembered hnot] at hlisted
  | union hkind => simp [Tree.isListed, hkind] at hlisted
  | known _ _ _ ht =>
    rw [declaredTypeOfNode?, h.bound, bind_some] at ht
    exact h.lookup_of_declared ht
  | @pending _ _ key hkey hpend =>
    obtain ⟨-, ⟨-, hctx⟩ | ⟨-, hown⟩⟩ := templateKey_memoized hwf h hkey
    · simp [isInstantiating, hctx] at hopen
    · exact ⟨key, hown, by rw [lookup?, hpend, some_or]⟩
  | construct hset hkey hpend horigin _ _ hbuilt hclosed =>
    rw [hopen] at horigin hclosed
    obtain ⟨h', hdecl⟩ := construct_memoized hcheck hwf hframed h hopen hset hkey hpend
      horigin hbuilt hclosed
    exact h'.lookup_of_declared hdecl
  | parameter hkind | intrinsic hkind | expression hkind | enum hkind | operation hkind
  | cyclicAlias hkind | aliased hkind | untyped hkind | visited hkind | contents hkind =>
    exact absurd rfl (h.ne_of_kind hkind rfl)

/-- The check of the declaration within an instance of which nothing is found constructs it. -/
theorem Evaluates.instantiates (heval : Evaluates env check d.node s t s')
    (h : Memoized env.tree d s) (hparams : env.tree.templateParameters d.node ≠ [])
    (hctx : s.context = some ⟨d.node, arguments⟩) (hnil : arguments ≠ [])
    (hown : s.openKey? env.tree d.node = some own) (hne : arguments ≠ own)
    (hnone : s.lookup? env.tree d arguments = none) :
    Memoized env.tree d (s'.addInstance d.symbol arguments t) := by
  have hinsting : s.isInstantiating d.node = true := by
    simp [isInstantiating, hctx]
  -- The key is the arguments of the instance.
  have hcases : ∀ {key s₁}, templateKey d.node env s = some (key, s₁) →
      s₁ = s ∧ key = arguments := by
    intro key s₁ hkey
    rcases templateKey_cases hkey with ⟨rfl, hctx'⟩ | ⟨hopen, -⟩
    · exact ⟨rfl, (Instantiation.mk.inj (mem_unique hctx' hctx)).2⟩
    · simp [hinsting] at hopen
  have hlisted := h.isListed
  cases heval with
  | work hnot | literal hnot => simp [Tree.isListed_of_isRemembered hnot] at hlisted
  | union hkind => simp [Tree.isListed, hkind] at hlisted
  | known _ _ hopen => simp [hinsting, hparams] at hopen
  | pending hkey hpend =>
    obtain ⟨rfl, rfl⟩ := hcases hkey
    rw [lookup?, hpend, some_or] at hnone
    simp at hnone
  | construct _ hkey _ horigin _ _ hbuilt hclosed =>
    obtain ⟨rfl, rfl⟩ := hcases hkey
    rw [hinsting] at horigin hclosed
    exact constructInstance_memoized hcheck hwf hframed h hctx hnil hown hne hnone horigin
      hbuilt hclosed
  | parameter hkind | intrinsic hkind | expression hkind | enum hkind | operation hkind
  | cyclicAlias hkind | aliased hkind | untyped hkind | visited hkind | contents hkind =>
    exact absurd rfl (h.ne_of_kind hkind rfl)

end

end

/-- Every check keeps one type for each argument list, however deeply it is nested. -/
theorem checkNode_memoizes (hwf : env.tree.WellFormed) (d : Subject) (depth : Nat) :
    Memoizes env d (checkNode depth) := by
  induction depth with
  | zero =>
    exact ⟨fun _ _ hrun => absurd hrun run_checkNode_zero,
      fun _ _ hrun => absurd hrun run_checkNode_zero,
      fun _ _ _ _ _ _ _ hrun => absurd hrun run_checkNode_zero⟩
  | succ depth ih =>
    have hframed := checkNode_framed hwf depth
    exact ⟨fun h hent hrun =>
        (checkStep_evaluates hwf hframed hrun).memoized ih hwf hframed h hent,
      fun h hopen hrun => (checkStep_evaluates hwf hframed hrun).declares ih hwf hframed h hopen,
      fun h hparams hctx hnil hown hne hnone hrun =>
        (checkStep_evaluates hwf hframed hrun).instantiates ih hwf hframed h hparams hctx
          hnil hown hne hnone⟩

end ApiSchema.Checking
