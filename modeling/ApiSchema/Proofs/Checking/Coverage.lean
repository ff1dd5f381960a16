import ApiSchema.Proofs.Checking.Evolution

/-!
# What has been checked is remembered

A check of a node can be called for while the node is under construction, and it can be called for
in the course of any other check. `Covers` says what all checks have in common: whatever is inside a
namespace that was visited meanwhile is remembered afterwards, unless it was under construction all
along, and the parameters of a template have types by the time the template has one. Between the
calls of a session nothing is under construction, so that there everything inside the namespaces
that have been visited is remembered.
-/

namespace ApiSchema.Checking

variable {env : Environment} {check : Check} {node : NodeId} {s s' s₁ s₂ : State}
  {t target : TypeId} {own : Option TypeId} {template : Option NodeId} {floor : Nat}
  {known key marks : List TypeId}

/-- A declaration is under construction or an instance of it is being checked. -/
def State.Busy (s : State) (declaration : NodeId) : Prop :=
  s.InProgress declaration ∨ s.isInstantiating declaration = true

/-- The parameters of every template whose type is known have types. -/
def State.Furnished (s : State) (tree : Tree) : Prop :=
  ∀ {d : NodeId} {symbol : SymbolId} {t : TypeId}, s.bindings.symbolOf? d = some symbol →
    s.declaredType? symbol = some t → ∀ p ∈ tree.templateParameters d,
    ∃ u, s.parameterTypes.find? p = some u

/-- Between the states everything in the namespaces that were visited came to be remembered, unless
it was busy, and templates were furnished. -/
structure Covers (env : Environment) (s s' : State) : Prop extends Retains s s' where
  swept {n statement : NodeId} {parts : NamespaceNode} :
    Bindings.Consistent env.tree s.bindings → n ∈ s'.checkedNamespaces →
    n ∉ s.checkedNamespaces → env.tree.kind? n = some (.namespaceStatement parts) →
    statement ∈ parts.statements → s'.Remembers env.tree statement ∨ s.Busy statement
  furnished : Bindings.Consistent env.tree s.bindings → s.Furnished env.tree → s'.Furnished env.tree

theorem Retains.inProgress (h : Retains s s') (d : NodeId) : s'.InProgress d ↔ s.InProgress d := by
  rw [State.InProgress, State.InProgress, h.pending, h.openAliases]

theorem Retains.busy (h : Retains s s') (d : NodeId) : s'.Busy d ↔ s.Busy d := by
  rw [State.Busy, State.Busy, h.inProgress, State.isInstantiating, State.isInstantiating, h.context]

/-- A template whose type is known is remembered. -/
theorem remembers_of_known {id : SymbolId} {symbol : Symbol} {declaration : NodeId}
    (hc : Bindings.Consistent env.tree s.bindings) (hfound : s.bindings.symbol? id = some symbol)
    (hnode : symbol.node? = some declaration) (htabl : symbol.kind.isTemplatable = true)
    (hknown : s.declaredType? id = some t) : s.Remembers env.tree declaration := by
  have hprof : s.bindings.profile? id = some (symbol.kind, symbol.declarations) :=
    profile?_eq_some_iff.mpr ⟨symbol, hfound, rfl, rfl⟩
  have hmem := Symbol.mem_declarations hnode
  have hother : symbol.kind ≠ .namespaceKind := fun heq => by
    simp [heq, SymbolKind.isTemplatable] at htabl
  obtain ⟨kind, hkind, hsymKind⟩ := hc.kind hprof hmem
  refine .of_declared hkind (by simpa [hsymKind] using hother) fun symbol' hsym' => ⟨t, ?_⟩
  obtain rfl := Option.some.inj ((hc.unique hprof hother hmem).2.symm.trans hsym')
  exact hknown

namespace Covers

theorem of_retains (h : Retains s s') (hvisited : s'.checkedNamespaces = s.checkedNamespaces)
    (hdecl : ∀ {symbol : SymbolId} {t : TypeId}, s'.declaredType? symbol = some t →
      ∃ u, s.declaredType? symbol = some u) : Covers env s s' where
  toRetains := h
  swept _ hn hnot := absurd (hvisited ▸ hn) hnot
  furnished _ hfurn := fun {d symbol t} hsym hknown p hp => by
    obtain ⟨u, hu⟩ := hdecl hknown
    obtain ⟨v, hv⟩ := hfurn (h.bindings ▸ hsym) hu p hp
    exact ⟨v, h.parameters hv⟩

/-- Changes of anything but what is known of symbols and which namespaces were visited. -/
theorem of_links (h : Retains s s') (hlinks : s'.links = s.links)
    (hvisited : s'.checkedNamespaces = s.checkedNamespaces) : Covers env s s' :=
  of_retains h hvisited fun {symbol t} hknown => ⟨t, by
    rwa [State.declaredType?, State.linksOf, hlinks] at hknown⟩

theorem refl (s : State) : Covers env s s := of_links (.refl s) rfl rfl

theorem trans (h : Covers env s s₁) (h' : Covers env s₁ s') : Covers env s s' where
  toRetains := h.toRetains.trans h'.toRetains
  swept := fun {n statement parts} hc hn hnot hkind hmem => by
    by_cases hmiddle : n ∈ s₁.checkedNamespaces
    · exact (h.swept hc hmiddle hnot hkind hmem).imp_left (·.retains h'.toRetains)
    · exact (h'.swept (h.bindings ▸ hc) hn hmiddle hkind hmem).imp_right (h.busy _).mp
  furnished hc hfurn := h'.furnished (h.bindings ▸ hc) (h.furnished hc hfurn)

theorem modifyTypes (f : TypeTable → TypeTable) : Covers env s (s.modifyTypes f) :=
  of_links { Retains.refl s with } rfl rfl

theorem enlist (tree : Tree) (n : NodeId) (t : TypeId) : Covers env s (s.enlist tree n t) := by
  rw [State.enlist_eq]
  exact .modifyTypes fun _ => _

/-- The type of a declaration is recorded when its parameters have types. -/
theorem declare {kind : NodeKind} (hkind : env.tree.kind? node = some kind)
    (hnot : kind.symbolKind? ≠ some .namespaceKind)
    (hparams : ∀ p ∈ env.tree.templateParameters node, ∃ u, s.parameterTypes.find? p = some u)
    (known type : TypeId) (isTemplate : Bool) (key : List TypeId) :
    Covers env s (s.declare (s.bindings.symbolOf? node) known type isTemplate key) := by
  have hframe : Frame none s (s.declare (s.bindings.symbolOf? node) known type isTemplate key) :=
    declare_frame _ _ _ _ _
  cases hsym : s.bindings.symbolOf? node with
  | none => exact .refl s
  | some symbol =>
    rw [hsym] at hframe
    refine
      { hframe.toRetains with
        swept := fun _ hn hnot => absurd hn hnot
        furnished := fun hc hfurn {d other u} hother hknown p hp => ?_ }
    rw [State.declaredType?, State.declare, linksOf_modifyLinks] at hknown
    split at hknown
    next heq =>
      obtain rfl := hc.eq_of_symbolOf hsym hkind hnot (heq ▸ hother)
      exact hparams p hp
    · exact hfurn hother hknown p hp

/-- What is checked in another context that was entered rightly is covered. -/
theorem within {context : Option Instantiation} (henters : Enters env s context)
    (h : Covers env { s with context } s₁) : Covers env s { s₁ with context := s.context } := by
  refine { h.toRetains with
    context := rfl
    swept := fun {n statement parts} hc hn hnot hkind hmem => ?_
    furnished := fun hc hfurn => h.furnished hc hfurn }
  rcases h.swept hc hn hnot hkind hmem with hrems | hprogress | hinsting
  · exact .inl { hrems with }
  · exact .inr (.inl hprogress)
  · obtain ⟨i, hi, hdecn⟩ := (Option.any_eq_true _ _).mp hinsting
    obtain rfl := of_decide_eq_true hdecn
    have hlater : s.Remembers env.tree i.declaration →
        State.Remembers { s₁ with context := s.context } env.tree i.declaration := fun hold => by
      have hent : State.Remembers { s with context } env.tree i.declaration := { hold with }
      exact { hent.retains h.toRetains with }
    obtain ⟨id, symbol, hfound, hnode, htabl, ⟨t, hknown⟩ | hrems | hprogress⟩ :=
      henters i hi
    · exact .inl (hlater (remembers_of_known hc hfound hnode htabl hknown))
    · exact .inl (hlater hrems)
    · exact .inr (.inl hprogress)

end Covers

/-! ### All checks cover what they visit -/

theorem Covers.decorated {applications : List DecoratorApplication}
    (h : Decorated target applications s s') : Covers env s s' :=
  have hframe : Frame none s s' := .ofDecorated h
  .of_links hframe.toRetains (by rw [h.eq]) (by rw [h.eq])

theorem Covers.finished {finish : Bool} (h : Finished finish target s s') :
    Covers env s s' := by
  rcases h with rfl | ⟨-, hdec⟩
  · exact .refl _
  · exact .decorated hdec

/-- So does every step. -/
theorem covers_stepwise : Stepwise env own (Covers env) where
  refl := .refl
  trans := .trans
  quiet h :=
    have hframe : Frame none _ _ := .ofQuiet h
    .of_links hframe.toRetains (by rw [h.eq]) (by rw [h.eq])
  raised := fun {s cause} _ =>
    have hframe : Frame none s (s.raise cause) := .raise cause
    .of_links hframe.toRetains rfl rfl
  added _ _ _ hfin := (Covers.modifyTypes _).trans (.finished hfin)
  assembled _ _ := .modifyTypes _
  literal s node literal _ := .of_links { Retains.refl s with } rfl rfl
  parameter := fun {s p} hnone => by
    refine .of_retains { Retains.refl s with parameters := fun {q u} hq => ?_ } rfl fun h => ⟨_, h⟩
    rwa [OrderedMap.find?_insert, if_neg fun heq => by simp [heq ▸ hq] at hnone]
  intrinsic := fun {s node name} hkind _ => by
    refine (Covers.modifyTypes _).trans (.declare hkind (by simp) ?_ _ _ _ _)
    simp [Tree.templateParameters, hkind]
  reference s _ := .of_links { Retains.refl s with } rfl rfl
  instantiated s symbol arguments t := by
    have hframe : Frame none s (s.addInstance symbol arguments t) :=
      .modifyLinks (fun _ => rfl) fun _ u hknown => ⟨u, hknown⟩
    exact .of_retains hframe.toRetains rfl fun {_ u} hknown =>
      ⟨u, declaredType?_addInstance s symbol arguments t _ ▸ hknown⟩
  within henters _ h := h.within henters

section

variable (hcheck : Relates env (Covers env) check)

include hcheck

/-- Work covers what it visits, whatever type it has under construction. -/
theorem Covers.ofLeads {P : List TypeId → Prop}
    (hleads : Leads env check template own floor s known s' P) : Covers env s s' :=
  covers_stepwise.ofLeads hcheck (fun _ _ _ => .modifyTypes _)
    (fun {s₁ _} _ _ _ => .of_links { Retains.refl s₁ with } rfl rfl) hleads

theorem Covers.ofCompletes {type : TypeId}
    (hcomps : Completes env check template type floor s s₁ s' known) : Covers env s s' := by
  obtain ⟨finish, hfin, -⟩ := hcomps.finished
  exact (Covers.ofLeads hcheck hcomps.filled).trans (.finished hfin)

/-- Statements that are checked one after the other are remembered. -/
theorem visits_remembers {statements : List NodeId} {u : PUnit}
    (hrun : statements.forM (fun statement => discard (check statement)) env s = some (u, s')) :
    ∀ statement ∈ statements, s'.Remembers env.tree statement ∨ s.Busy statement := by
  induction statements generalizing s with
  | nil => simp
  | cons first rest ih =>
    obtain ⟨s₁, hfirst, hrest⟩ := run_forM_cons.mp hrun
    obtain ⟨t, hfirst⟩ := run_discard.mp hfirst
    have hretains := (hcheck.framed.frame hfirst).toRetains
    intro statement hmem
    rcases List.mem_cons.mp hmem with rfl | hmem
    · cases hopen : s.isInstantiating statement with
      | true => exact .inr (.inr hopen)
      | false =>
        rcases hcheck.meets hopen hfirst with hrems | hprogress
        · exact .inl (hrems.retains (visits_frame hcheck.framed hrest).toRetains)
        · exact .inr (.inl ((hretains.inProgress _).mp hprogress))
    · exact (ih hrest statement hmem).imp_right (hretains.busy _).mp

end

/-- The parameters of a template have types once its key was asked for outside its instances. -/
theorem exists_parameterType (hwf : env.tree.WellFormed) (hopen : s.isInstantiating node = false)
    (hkey : templateKey node env s = some (key, s')) :
    ∀ p ∈ env.tree.templateParameters node, ∃ u, s'.parameterTypes.find? p = some u := by
  rcases templateKey_cases hkey with ⟨-, hctx⟩ | ⟨-, hrun⟩
  · simp [State.isInstantiating, hctx] at hopen
  · intro p hp
    obtain ⟨u, -, hu⟩ :=
      Tree.exists_of_mapM (openParameters_find hwf (List.Subset.refl _) hopen hrun) p hp
    exact ⟨u, hu⟩

/-- What is marked as under construction for a while is remembered in the end or was busy before. -/
theorem Covers.unmark {marked inside : State} (h : Covers env marked inside)
    (hmarked : marked = { s with
      types := marked.types
      pending := marked.pending
      building := marked.building
      openAliases := marked.openAliases })
    (hinside : s₁ = { inside with
      pending := s₁.pending
      building := s₁.building
      openAliases := s₁.openAliases })
    (hretains : Retains s s₁) (hlater : Covers env s₁ s')
    (hbusy : ∀ d, marked.Busy d → s.Busy d ∨ s'.Remembers env.tree d) : Covers env s s' := by
  rw [hmarked] at h
  have hrems : ∀ d, inside.Remembers env.tree d → s₁.Remembers env.tree d := fun d hd => by
    rw [hinside]
    exact { hd with }
  refine
    { hretains.trans hlater.toRetains with
      swept := fun {n statement parts} hc hn hnot hkind hmem => ?_
      furnished := fun hc hfurn => hlater.furnished (hretains.bindings ▸ hc) ?_ }
  · by_cases hbefore : n ∈ s₁.checkedNamespaces
    · rw [hinside] at hbefore
      rcases h.swept hc hbefore hnot hkind hmem with hremembered | hmarks
      · exact .inl ((hrems _ hremembered).retains hlater.toRetains)
      · exact (hbusy _ (hmarked ▸ hmarks)).symm
    · exact (hlater.swept (hretains.bindings ▸ hc) hn hbefore hkind hmem).imp_right
        (hretains.busy _).mp
  · rw [hinside]
    exact h.furnished hc hfurn

section

variable (hwf : env.tree.WellFormed) (hcheck : Relates env (Covers env) check)

include hwf hcheck

/-- A construction covers what it visits. -/
theorem construct_covers {stub : TypeShape} (hkey : templateKey node env s = some (key, s₁))
    (hcovers : Covers env s s₁) (hpend : s₁.pending.find? (node, key) = none)
    (hbuilt : Built env check node s₁.types.nextId stub marks (s₁.opened node key stub marks) s₂)
    (hclosed : Closed env.tree node key s₁.types.nextId
      (!(env.tree.templateParameters node).isEmpty) (s.isInstantiating node)
      { s₂ with building := s₁.building } s') :
    Covers env s s' := by
  obtain ⟨kind, hkind, -, hnot⟩ := hbuilt.statement
  have hretains := (hbuilt.frame hwf hcheck.framed hpend hclosed).toRetains
  obtain ⟨_, hcomps⟩ := hbuilt.completes hwf hcheck.framed
  have hinside := Covers.ofCompletes hcheck hcomps
  have hbuilding : Covers env s₂ { s₂ with building := s₁.building } :=
    .of_links { Retains.refl s₂ with } rfl rfl
  have hinsting : s₁.isInstantiating node = s.isInstantiating node := by
    rw [State.isInstantiating, State.isInstantiating, hcovers.context]
  have hbusy : (s.isInstantiating node = false → s'.Remembers env.tree node) →
      ∀ d, (s₁.opened node key stub marks).Busy d → s₁.Busy d ∨ s'.Remembers env.tree d := by
    rintro hrems d ((⟨key', t, hfound⟩ | halias) | hctx)
    · rcases OrderedMap.find?_insert_cases hfound with ⟨heq, -⟩ | hfound
      · obtain ⟨rfl, -⟩ := Prod.mk.inj heq
        cases hopen : s.isInstantiating d with
        | true => exact .inl (.inr (hinsting.trans hopen))
        | false => exact .inr (hrems hopen)
      · exact .inl (.inl (.inl ⟨key', t, hfound⟩))
    · exact .inl (.inl (.inr halias))
    · exact .inl (.inr hctx)
  refine hcovers.trans ?_
  cases hopen : s.isInstantiating node with
  | true =>
    rw [hopen] at hclosed hbusy
    cases hclosed with
    | instantiated =>
      exact hinside.unmark rfl rfl hretains (.refl _) (hbusy (by simp))
  | false =>
    rw [hopen] at hclosed
    have hrems := hclosed.remembers hkind hnot
    cases hclosed with
    | declared heq =>
      have hparams : ∀ p ∈ env.tree.templateParameters node,
          ∃ u, s₂.parameterTypes.find? p = some u := fun p hp =>
        (exists_parameterType hwf hopen hkey p hp).imp fun _ => hinside.parameters
      have hrec := (Covers.declare (s := { s₂ with building := s₁.building }) hkind hnot
        hparams s₁.types.nextId s₁.types.nextId (!(env.tree.templateParameters node).isEmpty)
        key).trans (.enlist env.tree node s₁.types.nextId)
      exact ((hinside.trans hbuilding).trans (heq ▸ hrec)).unmark rfl rfl hretains (.refl _)
        (hbusy fun _ => hrems)

/-- So does the check of an alias. -/
theorem alias_covers {parts : AliasNode}
    (hkind : env.tree.kind? node = some (.aliasStatement parts))
    (hkey : templateKey node env s = some (key, s₁)) (hcovers : Covers env s s₁)
    (hvalue : check parts.value env (s₁.openAlias (node, key)) = some (t, s₂)) :
    Covers env s (s₂.closeAlias env.tree node key t (s.isInstantiating node)) := by
  have hnot : (NodeKind.aliasStatement parts).symbolKind? ≠ some .namespaceKind := by
    simp
  have hinside := hcheck.related hvalue
  have hinsting : s₁.isInstantiating node = s.isInstantiating node := by
    rw [State.isInstantiating, State.isInstantiating, hcovers.context]
  have hopenAliases : s₂.openAliases.erase (node, key) = s₁.openAliases := by
    rw [hinside.openAliases]
    exact List.erase_cons_head ..
  have hretains : Retains s₁ (s₂.leaveAlias (node, key)) :=
    { hinside.toRetains with openAliases := hopenAliases }
  have hbusy : ∀ {r : State}, (s.isInstantiating node = false → r.Remembers env.tree node) →
      ∀ d, State.Busy (s₁.openAlias (node, key)) d → s₁.Busy d ∨ r.Remembers env.tree d := by
    rintro r hrems d ((hpend | ⟨key', hmem⟩) | hctx)
    · exact .inl (.inl (.inl hpend))
    · rcases List.mem_cons.mp hmem with heq | hmem
      · obtain ⟨rfl, -⟩ := Prod.mk.inj heq
        cases hopen : s.isInstantiating d with
        | true => exact .inl (.inr (hinsting.trans hopen))
        | false => exact .inr (hrems hopen)
      · exact .inl (.inl (.inr ⟨key', hmem⟩))
    · exact .inl (.inr hctx)
  refine hcovers.trans ?_
  dsimp only [State.closeAlias]
  split
  next hopen =>
    exact hinside.unmark rfl rfl hretains (.refl _) (hbusy (by simp [hopen]))
  next hopen =>
    rw [Bool.not_eq_true] at hopen
    have hparams : ∀ p ∈ env.tree.templateParameters node,
        ∃ u, s₂.parameterTypes.find? p = some u := fun p hp =>
      (exists_parameterType hwf hopen hkey p hp).imp fun _ => hinside.parameters
    have hdecl := Covers.declare (s := (s₂.leaveAlias (node, key))) hkind hnot hparams
    exact hinside.unmark rfl rfl hretains (hdecl _ _ _ _)
      (hbusy fun _ => .declare hkind hnot _ _ _ _ _)

omit hwf in
/-- The contents of a namespace are remembered when it has been visited. -/
theorem contents_covers {parts : NamespaceNode} {decorators : List DecoratorApplication}
    (hkind : env.tree.kind? node = some (.namespaceStatement parts))
    (hcovers : Covers env (s.visiting node) s₁)
    (hdec : Decorated t decorators (s₁.decorateNamespace t decorators) s₂)
    (hvisits : parts.statements.forM (fun statement => discard (check statement)) env s₂ =
      some ((), s')) : Covers env s s' := by
  have hmarked : Retains s (s.visiting node) :=
    { Retains.refl s with visited := List.subset_append_left _ _ }
  have hbefore := hcovers.trans ((Covers.modifyTypes _).trans (Covers.decorated hdec))
  have hall := hbefore.trans (covers_stepwise.ofVisits hcheck hvisits)
  refine
    { hmarked.trans hall.toRetains with
      swept := fun {n statement parts'} hc hn hnot hkind' hmem => ?_
      furnished := fun hc hfurn => hall.furnished hc hfurn }
  by_cases heq : n = node
  · subst heq
    obtain rfl : parts' = parts := by simpa [hkind] using hkind'.symm
    exact (visits_remembers hcheck hvisits statement hmem).imp_right
      ((hmarked.trans hbefore.toRetains).busy statement).mp
  · exact (hall.swept hc hn (by simp [State.visiting, hnot, heq]) hkind' hmem).imp_right
      (hmarked.busy _).mp

end

/-- All checks cover what they visit. -/
theorem covers_evolution (hwf : env.tree.WellFormed) : Evolution env (Covers env) where
  toStepwise := covers_stepwise
  construct hcheck _ hkey hcovers hpend _ hbuilt hclosed :=
    construct_covers hwf hcheck hkey hcovers hpend hbuilt hclosed
  expression := fun {check node s s₁ members} hcheck hkind hmems => by
    have hadded : Covers env s (s.drafted node) :=
      .of_links { Retains.refl s with } rfl rfl
    exact hadded.trans ((Covers.ofLeads hcheck
      (checkExpression_leads hwf hcheck.framed hkind hmems)).trans
        (.of_links { Retains.refl s₁ with } rfl rfl))
  enum hcheck hkind _ hcovers _ _ _ hafter := by
    refine hcovers.trans ((Covers.modifyTypes _).trans ((Covers.declare hkind
      (by simp) ?_ _ _ _ _).trans
        ((Covers.ofCompletes hcheck hafter).trans (.enlist _ _ _))))
    simp [Tree.templateParameters, hkind]
  operation hkind _ _ _ hcovers _ hfin := by
    refine hcovers.trans ((Covers.modifyTypes _).trans ((Covers.finished hfin).trans
      ((Covers.declare hkind (by simp) ?_ _ _ _ _).trans (.enlist _ _ _))))
    simp [Tree.templateParameters, hkind]
  aliased hcheck hkind hkey hcovers hvalue := alias_covers hwf hcheck hkind hkey hcovers hvalue
  contents hcheck hkind _ _ hcovers hdec hvisits :=
    contents_covers hcheck hkind hcovers hdec hvisits

end ApiSchema.Checking
