import ApiSchema.Proofs.Checking.Indifference
import ApiSchema.Proofs.Checking.Session

/-!
# Models that are kept from extending themselves

A model that would come to extend itself is left without a base, and this is reported at the clause
that names the base. Here the reports are matched with the models: whatever is checked, the new
reports are one for each new model that has such a clause and yet no base. If the clauses are
references to models, then every new model extends the model that its clause names, or is one that
the model named there comes to extend.
-/

namespace ApiSchema

open Relation TypeTable Table Option List

namespace TypeTable

variable {types types' : TypeTable} {tree : Tree} {target : NodeId → Option NodeId} {n : NodeId}
  {t base : TypeId} {clause : NodeId}

/-- A type is a model that is built from a node. -/
def Models (types : TypeTable) (n : NodeId) (t : TypeId) : Prop :=
  types.node? t = some n ∧ (types.heritage? t).isSome = true

/-- A type is a model that is built from a statement. -/
def States (types : TypeTable) (tree : Tree) (n : NodeId) (parts : ModelNode) (t : TypeId) : Prop :=
  types.Models n t ∧ tree.kind? n = some (.modelStatement parts)

/-- A type is a model whose statement names a base in a clause. -/
def HasClause (types : TypeTable) (tree : Tree) (t : TypeId) (clause : NodeId) : Prop :=
  ∃ n parts, types.States tree n parts t ∧ parts.base = some clause

/-- A type is a model whose statement names a base, and it has none. -/
def Severed (types : TypeTable) (tree : Tree) (t : TypeId) : Prop :=
  types.heritage? t = some none ∧ ∃ clause, types.HasClause tree t clause

/-- If the statement of a model names a base then the model has that base, or it is one that the
base comes to extend, and has no base; if the statement names none then the model has no base. -/
structure Settled (types : TypeTable) (tree : Tree) (target : NodeId → Option NodeId) (t : TypeId) :
    Prop where
  unnamed {n : NodeId} {parts : ModelNode} : types.States tree n parts t → parts.base = none →
    types.heritage? t = some none
  named {clause : NodeId} : types.HasClause tree t clause → ∃ n base, target clause = some n ∧
    types.Models n base ∧ (types.heritage? t = some (some base) ∨
      types.heritage? t = some none ∧ ReflTransGen types.Extends base t)

theorem Models.has (h : types.Models n t) : types.Has t := has_of_heritage h.2

theorem node?_modifyShape (types : TypeTable) (id : TypeId) (f : TypeShape → TypeShape)
    (other : TypeId) : (types.modifyShape id f).node? other = types.node? other := by
  rw [node?, node?, get?_modifyShape]
  split
  · rw [bind_map]
    rfl
  · rfl

theorem has_modifyShape (types : TypeTable) (id : TypeId) (f : TypeShape → TypeShape)
    (other : TypeId) : (types.modifyShape id f).Has other ↔ types.Has other := by
  rw [has_iff, has_iff, modifyShape, size_modify]

theorem eq_nextId_of_push {row : TypeRecord} (h : Has (push types row) t)
    (hnot : ¬ types.Has t) : t = types.nextId := by
  obtain ⟨other, hother⟩ := h
  exact (get?_push_cases hother).elim And.left fun hold => absurd ⟨_, hold⟩ hnot

theorem States.unique {n' : NodeId} {parts parts' : ModelNode} (h : types.States tree n parts t)
    (h' : types.States tree n' parts' t) : n = n' ∧ parts = parts' := by
  obtain rfl := mem_unique h.1.1 h'.1.1
  exact ⟨rfl, NodeKind.modelStatement.inj (mem_unique h.2 h'.2)⟩

theorem HasClause.has (h : types.HasClause tree t clause) : types.Has t := by
  obtain ⟨_, _, hstates, -⟩ := h
  exact hstates.1.has

theorem Severed.has (h : types.Severed tree t) : types.Has t := by
  obtain ⟨_, _, hclause⟩ := h
  exact hclause.has

theorem HasClause.unique {other : NodeId} (h : types.HasClause tree t clause)
    (h' : types.HasClause tree t other) : clause = other := by
  obtain ⟨n, parts, hstates, hbase⟩ := h
  obtain ⟨n', parts', hstates', hbase'⟩ := h'
  obtain ⟨rfl, rfl⟩ := hstates.unique hstates'
  exact mem_unique hbase hbase'

end TypeTable

namespace Checking

variable {env : Environment} {check : Check} {tree : Tree} {target : NodeId → Option NodeId}
  {s s' s₁ p : State} {cuts : List (TypeId × Diagnostic)} {clause : NodeId} {own : Option TypeId}
  {parts : ModelNode} {key : List TypeId} {m : ModelType}

/-- The reports of models that would come to extend themselves. -/
def State.recursions (s : State) : List Diagnostic :=
  s.diagnostics.toList.filter fun d => d.code = 3009

theorem recursions_append {more : List Diagnostic}
    (h : s'.diagnostics.toList = s.diagnostics.toList ++ more) :
    s'.recursions = s.recursions ++ more.filter fun d => d.code = 3009 := by
  rw [State.recursions, h, filter_append]
  rfl

/-! ### The tally -/

/-- Between the states models were severed: `cuts` are those, each with what is reported of it. What
models there were is as it was, but for the base of one that is under construction. -/
structure Tally (tree : Tree) (target : NodeId → Option NodeId) (own : Option TypeId)
    (s s' : State) (cuts : List (TypeId × Diagnostic)) : Prop where
  has {id : TypeId} : s.types.Has id → s'.types.Has id
  node {id : TypeId} : s.types.Has id → s'.types.node? id = s.types.node? id
  isModel {id : TypeId} : s.types.Has id →
    (s'.types.heritage? id).isSome = (s.types.heritage? id).isSome
  heritage {id : TypeId} : s.types.Has id → own ≠ some id →
    s'.types.heritage? id = s.types.heritage? id
  extended {id base : TypeId} : s.types.Extends id base → s'.types.Extends id base
  reported : s'.recursions = s.recursions ++ cuts.map Prod.snd
  placed : ∀ cut ∈ cuts, ∃ clause arguments, s'.types.HasClause tree cut.1 clause ∧
    cut.2 = diagnosticAt tree .recursiveBase arguments (some clause)
  distinct : (cuts.map Prod.fst).Nodup
  severed {t : TypeId} : own ≠ some t →
    (t ∈ cuts.map Prod.fst ↔ ¬ s.types.Has t ∧ s'.types.Severed tree t)
  settled {t : TypeId} : own ≠ some t → ¬ s.types.Has t → s'.types.Settled tree target t

namespace Tally

variable {own : Option TypeId} {cuts cuts' : List (TypeId × Diagnostic)} {t : TypeId} {n : NodeId}

section

variable (h : Tally tree target own s s' cuts)

include h

theorem models_iff (hhas : s.types.Has t) :
    s'.types.Models n t ↔ s.types.Models n t := by
  rw [Models, Models, h.node hhas, h.isModel hhas]

theorem models (hmodels : s.types.Models n t) :
    s'.types.Models n t :=
  (h.models_iff hmodels.has).mpr hmodels

theorem states_iff (hhas : s.types.Has t) :
    s'.types.States tree n parts t ↔ s.types.States tree n parts t := by
  rw [States, States, h.models_iff hhas]

theorem hasClause_iff (hhas : s.types.Has t) :
    s'.types.HasClause tree t clause ↔ s.types.HasClause tree t clause := by
  simp only [HasClause, h.states_iff hhas]

theorem hasClause (hclause : s.types.HasClause tree t clause) :
    s'.types.HasClause tree t clause :=
  (h.hasClause_iff hclause.has).mpr hclause

theorem severed_iff (hhas : s.types.Has t) (hown : own ≠ some t) :
    s'.types.Severed tree t ↔ s.types.Severed tree t := by
  simp only [Severed, h.heritage hhas hown, h.hasClause_iff hhas]

theorem reaches {a b : TypeId} (hreach : ReflTransGen s.types.Extends a b) :
    ReflTransGen s'.types.Extends a b :=
  ReflTransGen.mono (fun _ _ => h.extended) _ _ hreach

theorem settled_mono (hhas : s.types.Has t) (hown : own ≠ some t)
    (hsettled : s.types.Settled tree target t) :
    s'.types.Settled tree target t where
  unnamed hstates hbase := by
    rw [h.heritage hhas hown]
    exact hsettled.unnamed ((h.states_iff hhas).mp hstates) hbase
  named hclause := by
    obtain ⟨n, base, htarget, hmodels, hcases⟩ :=
      hsettled.named ((h.hasClause_iff hhas).mp hclause)
    refine ⟨n, base, htarget, h.models hmodels, ?_⟩
    rw [h.heritage hhas hown]
    exact hcases.imp_right fun ⟨hnone, hreach⟩ => ⟨hnone, h.reaches hreach⟩

end

/-- A change that leaves alone what models extend, and adds no models that statements stand for. -/
theorem idle (hhas : ∀ id, s.types.Has id → s'.types.Has id ∧
      s'.types.node? id = s.types.node? id ∧ s'.types.heritage? id = s.types.heritage? id)
    (hnew : ∀ {t n parts}, own ≠ some t → ¬ s.types.Has t → ¬ s'.types.States tree n parts t)
    (hreported : s'.recursions = s.recursions) : Tally tree target own s s' [] where
  has hid := (hhas _ hid).1
  node hid := (hhas _ hid).2.1
  isModel hid := by rw [(hhas _ hid).2.2]
  heritage hid _ := (hhas _ hid).2.2
  extended hext := by
    rw [extends_iff] at hext ⊢
    rwa [(hhas _ (has_of_heritage (by simp [hext]))).2.2]
  reported := by rw [hreported, map_nil, append_nil]
  placed := by simp
  distinct := nodup_nil
  severed hown :=
    ⟨by simp, fun ⟨hnot, _, _, _, _, hstates, _⟩ => absurd hstates (hnew hown hnot)⟩
  settled hown hnot :=
    ⟨fun hstates => absurd hstates (hnew hown hnot),
      fun ⟨_, _, hstates, _⟩ => absurd hstates (hnew hown hnot)⟩

theorem refl (own : Option TypeId) (s : State) : Tally tree target own s s [] :=
  idle (fun _ hid => ⟨hid, rfl, rfl⟩) (fun _ hnot hstates => hnot hstates.1.has) rfl

/-- A change of anything but types and reports. -/
theorem aside (htypes : s'.types = s.types) (hdiags : s'.diagnostics = s.diagnostics) :
    Tally tree target own s s' [] := by
  refine idle (fun _ hid => ?_) (fun _ hnot hstates => hnot ?_) ?_
  · exact ⟨by rwa [htypes], by rw [htypes], by rw [htypes]⟩
  · exact htypes ▸ hstates.1.has
  · rw [State.recursions, hdiags]
    rfl

/-- Cuts add up. -/
theorem trans (h : Tally tree target own s s₁ cuts) (h' : Tally tree target own s₁ s' cuts')
    (hown : ∀ t, own = some t → t ∈ cuts.map Prod.fst → t ∉ cuts'.map Prod.fst) :
    Tally tree target own s s' (cuts ++ cuts') where
  has hid := h'.has (h.has hid)
  node hid := (h'.node (h.has hid)).trans (h.node hid)
  isModel hid := (h'.isModel (h.has hid)).trans (h.isModel hid)
  heritage hid hne := (h'.heritage (h.has hid) hne).trans (h.heritage hid hne)
  extended hext := h'.extended (h.extended hext)
  reported := by rw [h'.reported, h.reported, map_append, append_assoc]
  placed cut hcut := by
    rcases mem_append.mp hcut with hcut | hcut
    · obtain ⟨clause, arguments, hclause, heq⟩ := h.placed cut hcut
      exact ⟨clause, arguments, h'.hasClause hclause, heq⟩
    · exact h'.placed cut hcut
  distinct := by
    rw [map_append]
    refine nodup_append.mpr ⟨h.distinct, h'.distinct, fun t ht u hu heq => ?_⟩
    subst heq
    by_cases hsame : own = some t
    · exact hown t hsame ht hu
    · obtain ⟨-, -, clause, hclause⟩ := (h.severed hsame).mp ht
      exact ((h'.severed hsame).mp hu).1 hclause.has
  severed {t} hne := by
    rw [map_append, mem_append, h.severed hne, h'.severed hne]
    constructor
    · rintro (⟨hnot, hsev⟩ | ⟨hnot, hsev⟩)
      · obtain ⟨-, clause, hclause⟩ := id hsev
        exact ⟨hnot, (h'.severed_iff hclause.has hne).mpr hsev⟩
      · exact ⟨fun hhas => hnot (h.has hhas), hsev⟩
    · rintro ⟨hnot, hsev⟩
      by_cases hhas : s₁.types.Has t
      · exact .inl ⟨hnot, (h'.severed_iff hhas hne).mp hsev⟩
      · exact .inr ⟨hhas, hsev⟩
  settled {t} hne hnot := by
    by_cases hhas : s₁.types.Has t
    · exact h'.settled_mono hhas hne (h.settled hne hnot)
    · exact h'.settled hne hhas

/-- What leaves all models alone leaves alone the one under construction. -/
theorem within (h : Tally tree target none s s' cuts) (hhas : s.types.Has t) :
    Tally tree target (some t) s s' cuts ∧ t ∉ cuts.map Prod.fst := by
  refine ⟨{ h with
    heritage := fun hid _ => h.heritage hid (by simp)
    severed := fun _ => h.severed (by simp)
    settled := fun _ => h.settled (by simp) }, fun hmem => ?_⟩
  exact ((h.severed (by simp)).mp hmem).1 hhas

/-- A model that was under construction is complete. -/
theorem complete (h : Tally tree target (some t) s s' cuts) (hnew : ¬ s.types.Has t)
    (hsev : t ∈ cuts.map Prod.fst ↔ s'.types.Severed tree t)
    (hsettled : s'.types.Settled tree target t) : Tally tree target none s s' cuts := by
  refine { h with
    heritage := fun hid _ => h.heritage hid fun heq => hnew (some.inj heq ▸ hid)
    severed := fun {u} _ => ?_
    settled := fun {u} _ hnot => ?_ }
  all_goals by_cases heq : some t = some u
  · cases heq
    exact ⟨fun hmem => ⟨hnew, hsev.mp hmem⟩, fun hboth => hsev.mpr hboth.2⟩
  · exact h.severed heq
  · cases heq
    exact hsettled
  · exact h.settled heq hnot

end Tally

/-! ### All checks -/

/-- Names mean what they meant in the first state, and the types that are known for model
statements, or under construction, are models built from them. -/
structure Traced (tree : Tree) (p s : State) : Prop where
  bindings : s.bindings = p.bindings
  mergedSymbols : s.mergedSymbols = p.mergedSymbols
  declared {n : NodeId} {parts : ModelNode} {t : TypeId} :
    tree.kind? n = some (.modelStatement parts) → s.declaredTypeOfNode? n = some t →
    s.types.Models n t
  pending {n : NodeId} {parts : ModelNode} {key : List TypeId} {t : TypeId} :
    tree.kind? n = some (.modelStatement parts) → s.pending.find? (n, key) = some t →
    s.types.Models n t

/-- What a check does to models: what is known of them can still be traced, and the new reports are
accounted for. -/
def Reckons (tree : Tree) (p s s' : State) : Prop :=
  Traced tree p s → Traced tree p s' ∧ ∃ cuts, Tally tree (p.declarationOf? tree) none s s' cuts

section

variable {p : State}

/-- What is known can be traced as long as nothing is recorded. -/
theorem Traced.tally {cuts : List (TypeId × Diagnostic)} {own : Option TypeId}
    (h : Traced tree p s) (htally : Tally tree target own s s' cuts)
    (hbinds : s'.bindings = s.bindings) (hmerged : s'.mergedSymbols = s.mergedSymbols)
    (hdecl : ∀ {n parts t}, tree.kind? n = some (.modelStatement parts) →
      s'.declaredTypeOfNode? n = some t → s.declaredTypeOfNode? n = some t)
    (hpend : ∀ {n parts key t}, tree.kind? n = some (.modelStatement parts) →
      s'.pending.find? (n, key) = some t → s.pending.find? (n, key) = some t) :
    Traced tree p s' where
  bindings := hbinds.trans h.bindings
  mergedSymbols := hmerged.trans h.mergedSymbols
  declared hkind ht := htally.models (h.declared hkind (hdecl hkind ht))
  pending hkind ht := htally.models (h.pending hkind (hpend hkind ht))

theorem Traced.aside (h : Traced tree p s) (htally : Tally tree target own s s' cuts)
    (hbinds : s'.bindings = s.bindings) (hmerged : s'.mergedSymbols = s.mergedSymbols)
    (hlinks : s'.links = s.links) (hpend : s'.pending = s.pending) : Traced tree p s' := by
  have hknown : s'.declaredType? = s.declaredType? := by
    funext id
    rw [State.declaredType?, State.declaredType?, State.linksOf, State.linksOf, hlinks]
  refine h.tally htally hbinds hmerged (fun _ ht => ?_) fun _ ht => hpend ▸ ht
  rwa [State.declaredTypeOfNode?, hbinds, hknown] at ht

/-- The relation holds over a change that severs no model. -/
theorem Reckons.idle (h : Tally tree (p.declarationOf? tree) none s s' [])
    (hbinds : s'.bindings = s.bindings := by rfl)
    (hmerged : s'.mergedSymbols = s.mergedSymbols := by rfl)
    (hlinks : s'.links = s.links := by rfl) (hpend : s'.pending = s.pending := by rfl) :
    Reckons tree p s s' :=
  fun hs => ⟨hs.aside h hbinds hmerged hlinks hpend, [], h⟩

/-- The type that is known for a model statement is recorded for that statement alone. -/
theorem declaredTypeOfNode_declare {node n : NodeId} {known type t : TypeId} {isTemplate : Bool}
    (hcons : Bindings.Consistent tree s.bindings)
    (hmodel : tree.kind? n = some (.modelStatement parts))
    (ht : (s.declare (s.bindings.symbolOf? node) known type isTemplate key).declaredTypeOfNode? n =
      some t) :
    (n = node ∧ t = known) ∨ s.declaredTypeOfNode? n = some t := by
  obtain ⟨id, hid, hknown⟩ := bind_eq_some_iff.mp ht
  rw [State.declare_eq] at hid
  change s.bindings.symbolOf? n = some id at hid
  rw [State.declaredTypeOfNode?, hid, bind_some]
  cases hsym : s.bindings.symbolOf? node with
  | none =>
    rw [hsym] at hknown
    exact .inr hknown
  | some symbol =>
    rw [hsym, State.declaredType?, State.declare, linksOf_modifyLinks] at hknown
    split at hknown
    next heq =>
      have hsame : node = n := hcons.eq_of_symbolOf hid hmodel
        (by simp) (heq ▸ hsym)
      exact .inl ⟨hsame.symm, (some.inj hknown).symm⟩
    · exact .inr hknown

/-- The relation holds over all that model statements do not do. -/
theorem reckons_indifferent (hcons : Bindings.Consistent env.tree p.bindings) :
    Indifferent env (Reckons env.tree p) where
  refl s h := ⟨h, [], .refl _ s⟩
  trans h h' hs := by
    obtain ⟨h₁, cuts, htally⟩ := h hs
    obtain ⟨h₂, cuts', htally'⟩ := h' h₁
    exact ⟨h₂, cuts ++ cuts', htally.trans htally' (by simp)⟩
  told {s diagnostics more} hmore hmessages := by
    refine .idle (.idle (fun _ hid => ⟨hid, rfl, rfl⟩) (fun _ hnot hstates => hnot hstates.1.has) ?_)
    have hnone : more.filter (fun d => d.code = 3009) = [] :=
      filter_eq_nil_iff.mpr fun d hd => by
        have hother := hmessages d hd
        cases hmessage : d.message <;> simp_all [Diagnostic.code, Message.code]
    exact (recursions_append hmore).trans (by rw [hnone, append_nil])
  added {s row} hrow := by
    refine .idle (.idle (fun id hid => ⟨(Grows.push s.types row).has hid,
      (Grows.push s.types row).node hid, heritage?_push_of_has row hid⟩)
      (fun {t n parts} _ hnot hstates => ?_) rfl)
    obtain ⟨⟨hnode, hmodel⟩, hkind⟩ := hstates
    obtain ⟨m, hm⟩ := exists_model_iff.mpr hmodel
    obtain ⟨row', hrow', hshape⟩ := map_eq_some_iff.mp (model?_eq_some_iff.mp hm)
    rw [TypeTable.node?, hrow', bind_some] at hnode
    obtain rfl := eq_nextId_of_push ⟨_, hrow'⟩ hnot
    have hsame : row' = row := mem_unique hrow' (get?_push_nextId s.types row)
    exact hrow ⟨m, n, parts, hsame ▸ hshape, hsame ▸ hnode, hkind⟩
  amended {s id f} hher :=
    .idle (.idle (fun other hother => ⟨(has_modifyShape _ _ _ other).mpr hother,
      node?_modifyShape _ _ _ _, hher other⟩)
      (fun _ hnot hstates => hnot ((has_modifyShape _ _ _ _).mp hstates.1.has)) rfl)
  declared {s node kind known type isTemplate key} hkind hnot _ hs := by
    have htally : Tally env.tree (p.declarationOf? env.tree) none s
        (s.declare (s.bindings.symbolOf? node) known type isTemplate key) [] :=
      .aside (s.types_declare _ _ _ _ _) (by rw [State.declare_eq])
    refine ⟨hs.tally htally (by rw [State.declare_eq]) (by rw [State.declare_eq])
      (fun {n parts t} hmodel ht => ?_) fun _ ht => by rwa [State.declare_eq] at ht, [], htally⟩
    obtain ⟨rfl, -⟩ | hbefore :=
      declaredTypeOfNode_declare (hs.bindings ▸ hcons) hmodel ht
    · obtain rfl := mem_unique hmodel hkind
      exact absurd rfl hnot
    · exact hbefore
  instantiated s symbol arguments t _ hs := by
    have htally : Tally env.tree (p.declarationOf? env.tree) none s
        (s.addInstance symbol arguments t) [] := .aside rfl rfl
    refine ⟨hs.tally htally rfl rfl (fun {n parts u} _ hu => ?_) fun _ hu => hu, [], htally⟩
    rwa [State.declaredTypeOfNode?, funext (declaredType?_addInstance s symbol arguments t)] at hu
  pended {s pending} hpend hs := by
    have htally : Tally env.tree (p.declarationOf? env.tree) none s { s with pending } [] :=
      .aside rfl rfl
    exact ⟨hs.tally htally rfl rfl (fun _ ht => ht) fun {n parts key t} hkind ht =>
      hpend n parts key hkind ▸ ht, [], htally⟩
  aside hbinds hmerged htypes hlinks hpend hdiags :=
    .idle (.aside htypes hdiags) hbinds hmerged hlinks hpend

end

/-! ### Asking for models -/

/-- A node asks for the model of a statement: it is the statement, or a reference that leads to
it. -/
inductive Asks (tree : Tree) (p : State) : NodeId → NodeId → Prop
  | statement {n : NodeId} {parts : ModelNode} : tree.kind? n = some (.modelStatement parts) →
    Asks tree p n n
  | reference {node n target : NodeId} {arguments : List NodeId} {parts : ModelNode} :
    tree.kind? node = some (.typeReference target arguments) →
    p.declarationOf? tree node = some n → tree.kind? n = some (.modelStatement parts) →
    Asks tree p node n

/-- The check finds the models that are asked for. -/
def Finds (env : Environment) (p : State) (check : Check) : Prop :=
  ∀ {node n : NodeId} {s s' : State} {t : TypeId}, Asks env.tree p node n → Traced env.tree p s →
    check node env s = some (t, s') → s'.types.Models n t

section

variable {p : State} {node n : NodeId} {parts : ModelNode} {t : TypeId}
  (hwf : env.tree.WellFormed) (hcons : Bindings.Consistent env.tree p.bindings)
  (hcheck : ∀ n, Obeys env (Reckons env.tree p) (check n)) (hfinds : Finds env p check)

include hcons hcheck hfinds

omit hcheck in
theorem checkDeclaredReference_finds {id : SymbolId} {symbol : Symbol} {given : List TypeId}
    (hplain : ∀ n, env.tree.templateParameters n = [])
    (hmodel : env.tree.kind? n = some (.modelStatement parts))
    (hsym : p.bindings.symbol? id = some symbol) (hnode : symbol.node? = some n)
    (hkind : symbol.kind = .model) (hs : Traced env.tree p s)
    (hrun : checkDeclaredReference check node id symbol.kind n given env s = some (t, s')) :
    s'.types.Models n t := by
  obtain ⟨-, hparams, -⟩ | ⟨-, s₁, hrefnt, hquiet⟩ := checkDeclaredReference_cases hrun
  · exact absurd (hplain n) hparams
  · have hid : s.bindings.symbolOf? n = some id := by
      rw [hs.bindings]
      exact symbolOf_of_node hcons hsym hnode (by simp [hkind])
    rw [hquiet.types]
    obtain ⟨hother, -⟩ | ⟨hother, -⟩ | ⟨-, -, hdecl⟩ := checkReferent_cases hrefnt
    · simp [hkind] at hother
    · simp [hkind] at hother
    · obtain ⟨hknown, rfl⟩ | ⟨-, s₂, hinside, rfl⟩ := checkDeclaredType_cases hdecl
      · exact hs.declared hmodel (by rw [State.declaredTypeOfNode?, hid, bind_some, hknown])
      · have hent : Traced env.tree p { s with context := none } := { hs with }
        exact (hfinds (.statement hmodel) hent hinside :)

include hwf in
theorem checkTypeReference_finds (hplain : ∀ n, env.tree.templateParameters n = [])
    {target : NodeId} {arguments : List NodeId}
    (hkind : env.tree.kind? node = some (.typeReference target arguments))
    (hleads : p.declarationOf? env.tree node = some n)
    (hmodel : env.tree.kind? n = some (.modelStatement parts)) (hs : Traced env.tree p s)
    (hrun : checkTypeReference check node target arguments env s = some (t, s')) :
    s'.types.Models n t := by
  have hind := reckons_indifferent hcons
  rw [← State.declarationOf?_congr hs.bindings hs.mergedSymbols] at hleads
  obtain ⟨id, symbol, s₁, given, s₂, hsym, hnode, hresolve, hgiven, hrun⟩ :=
    run_checkTypeReference hwf hkind hleads hrun
  rw [hs.bindings] at hsym
  have hmodelKind : symbol.kind = .model :=
    (some.inj (symbolKind_of_node hcons hsym hnode hmodel)).symm
  obtain ⟨hs₁, -⟩ := hind.resolveReference _ _ hresolve hs
  have hall : hind.rules.holds (arguments.mapM check) (arguments.mapM check) :=
    hind.rules.mapM fun n _ => hcheck n
  obtain ⟨hs₂, -⟩ := hall hgiven hs₁
  exact checkDeclaredReference_finds hcons hfinds hplain hmodel hsym hnode
    hmodelKind hs₂ hrun

end

/-! ### The construction of a model -/

/-- A model that is named as a base is taken, unless it comes to extend the model; that is
reported. -/
theorem admitHeritage_of_model {complaint : Message} {model source : TypeId} {place : NodeId}
    {answer : Option TypeId} (hsource : s.types.model? source = some m)
    (hrun : admitHeritage complaint model place source env s = some (answer, s')) :
    (answer = some source ∧ s' = s) ∨
    (ReflTransGen s.types.Extends source model ∧ answer = none ∧ ∃ arguments, s' = { s with
      diagnostics := s.diagnostics.add
        (diagnosticAt env.tree .recursiveBase arguments (some place)) }) := by
  simp only [admitHeritage, getTypes_bind, model?_eq_some_iff.mp hsource] at hrun
  split at hrun
  next hmem =>
    simp only [getTree_bind] at hrun
    obtain ⟨_, hreport, rfl⟩ := run_bind_pure.mp hrun
    exact .inr ⟨extends_of_mem_baseChainFrom hmem, rfl, _, run_modify.mp hreport⟩
  · obtain ⟨rfl, rfl⟩ := run_pure.mp hrun
    exact .inl ⟨rfl, rfl⟩

namespace Tally

variable {t : TypeId}

/-- A base is set. -/
theorem setBase (s : State) (hnone : s.types.heritage? t = some none) (base : Option TypeId) :
    Tally tree target (some t) s
      (s.modifyTypes fun types => types.modifyModel t fun m => { m with base }) [] := by
  have hhas : ∀ id, (s.types.modifyModel t fun m => { m with base }).Has id ↔ s.types.Has id :=
    has_modifyShape _ _ _
  have hother : ∀ {id}, id ≠ t → (s.types.modifyModel t fun m => { m with base }).heritage? id =
      s.types.heritage? id := by
    intro id hne
    rw [heritage?_setBase, if_neg hne]
  exact {
    has := (hhas _).mpr
    node := fun _ => node?_modifyShape _ _ _ _
    isModel := fun _ => isSome_heritage?_setBase _ _ _ _
    heritage := fun _ hne => hother fun heq => hne (heq ▸ rfl)
    extended := fun {id other} hext => by
      rw [extends_iff] at hext ⊢
      refine (hother fun heq => ?_).trans hext
      rw [heq, hnone] at hext
      simp at hext
    reported := by rw [map_nil, append_nil]; rfl
    placed := by simp
    distinct := nodup_nil
    severed := fun _ => ⟨by simp, fun hsev => absurd ((hhas _).mp hsev.2.has) hsev.1⟩
    settled := fun _ hnot => ⟨fun hstates => absurd ((hhas _).mp hstates.1.has) hnot,
      fun hclause => absurd ((hhas _).mp hclause.has) hnot⟩ }

/-- A model is reported at its clause. -/
theorem report (arguments : List String) (hclause : s.types.HasClause tree t clause) :
    Tally tree target (some t) s { s with
        diagnostics := s.diagnostics.add
          (diagnosticAt tree .recursiveBase arguments (some clause)) }
      [(t, diagnosticAt tree .recursiveBase arguments (some clause))] where
  has hid := hid
  node _ := rfl
  isModel _ := rfl
  heritage _ _ := rfl
  extended hext := hext
  reported := by
    have hcode : (diagnosticAt tree .recursiveBase arguments (some clause)).code = 3009 := by
      rw [diagnosticAt]
      split <;> rfl
    have hadded : (s.diagnostics.add (diagnosticAt tree .recursiveBase arguments
        (some clause))).toList = s.diagnostics.toList ++ [_] := rfl
    exact (recursions_append hadded).trans (by simp [hcode])
  placed cut hcut := by
    obtain rfl := mem_singleton.mp hcut
    exact ⟨clause, arguments, hclause, rfl⟩
  distinct := by simp
  severed hne := by
    refine ⟨fun hmem => ?_, fun hsev => absurd hsev.2.has hsev.1⟩
    exact absurd (congrArg some (mem_singleton.mp hmem).symm) hne
  settled _ hnot :=
    ⟨fun hstates => absurd hstates.1.has hnot, fun hclause => absurd hclause.has hnot⟩

end Tally

section

variable {p : State} {node : NodeId} {parts : ModelNode} {t : TypeId}
  (hcheck : ∀ n, Obeys env (Reckons env.tree p) (check n)) (hfinds : Finds env p check)

include hcheck hfinds

/-- The model that a clause names becomes the base, or it is reported that it does not. -/
theorem checkBase_tally (hkind : env.tree.kind? node = some (.modelStatement parts))
    (hasks : ∀ clause, parts.base = some clause → ∃ n, Asks env.tree p clause n ∧
      p.declarationOf? env.tree clause = some n)
    (hs : Traced env.tree p s) (hown : s.types.Models node t)
    (hnone : s.types.heritage? t = some none) {u : Unit}
    (hrun : checkBase check t parts.base env s = some (u, s')) :
    Traced env.tree p s' ∧ s'.types.Settled env.tree (p.declarationOf? env.tree) t ∧ ∃ cuts,
      Tally env.tree (p.declarationOf? env.tree) (some t) s s' cuts ∧
      (t ∈ cuts.map Prod.fst ↔ s'.types.Severed env.tree t) := by
  cases hbase : parts.base with
  | none =>
    rw [hbase] at hrun
    obtain ⟨-, rfl⟩ := run_pure.mp hrun
    have hnot : ∀ {clause}, ¬ s'.types.HasClause env.tree t clause := by
      rintro clause ⟨n, parts', hstates, hclause⟩
      obtain ⟨rfl, rfl⟩ := hstates.unique ⟨hown, hkind⟩
      simp [hbase] at hclause
    refine ⟨hs, ⟨fun _ _ => hnone, fun hclause => absurd hclause hnot⟩, [], .refl _ _, by simp, ?_⟩
    exact fun ⟨_, _, hclause⟩ => absurd hclause hnot
  | some clause =>
    obtain ⟨n, hasked, htarget⟩ := hasks clause hbase
    have hclause : s.types.HasClause env.tree t clause := ⟨node, parts, ⟨hown, hkind⟩, hbase⟩
    rw [hbase] at hrun
    obtain ⟨source, s₁, hsource, hrun⟩ := run_bind.mp hrun
    obtain ⟨base, s₂, hadmit, hset⟩ := run_bind.mp hrun
    obtain rfl := run_modify.mp hset
    obtain ⟨hs₁, before, htally⟩ := hcheck clause hsource hs
    have hmodels : s₁.types.Models n source := hfinds hasked hs hsource
    have hsettles : ∀ {types : TypeTable}, types.HasClause env.tree t clause →
        types.Models n source → (types.heritage? t = some (some source) ∨
          types.heritage? t = some none ∧ ReflTransGen types.Extends source t) →
        types.Settled env.tree (p.declarationOf? env.tree) t := by
      refine fun hclause hmodels hends => ⟨fun hstates hnone => ?_, fun hother => ?_⟩
      · obtain ⟨_, _, hstates', hbase'⟩ := hclause
        obtain ⟨rfl, rfl⟩ := hstates.unique hstates'
        simp [hbase'] at hnone
      · obtain rfl := hother.unique hclause
        exact ⟨n, source, htarget, hmodels, hends⟩
    obtain ⟨hwithin, hnew⟩ := htally.within hown.has
    have hnone₁ : s₁.types.heritage? t = some none :=
      (htally.heritage hown.has (by simp)).trans hnone
    obtain ⟨m, hm⟩ := exists_model_iff.mpr hmodels.2
    have hbecomes : ∀ {types : TypeTable} {base : Option TypeId}, types.heritage? t = some none →
        (types.modifyModel t fun m => { m with base }).heritage? t = some base := by
      intro types base hnone
      rw [heritage?_setBase, if_pos rfl, hnone, map_some]
    obtain ⟨rfl, rfl⟩ | ⟨hreach, rfl, arguments, heq⟩ := admitHeritage_of_model hm hadmit
    · have hlast : Tally env.tree (p.declarationOf? env.tree) (some t) _ _ [] :=
        .setBase s₂ hnone₁ (some source)
      have hall := hwithin.trans hlast (by simp)
      rw [append_nil] at hall
      refine ⟨hs₁.aside hlast rfl rfl rfl rfl, hsettles (hall.hasClause hclause)
        (hlast.models hmodels) (.inl (hbecomes hnone₁)),
        before, hall, fun hmem => absurd hmem hnew, fun ⟨hsev, _⟩ => ?_⟩
      exact absurd ((hbecomes hnone₁).symm.trans hsev) (by simp)
    · have hreport : Tally env.tree (p.declarationOf? env.tree) (some t) s₁ s₂
          [(t, diagnosticAt env.tree .recursiveBase arguments (some clause))] := by
        rw [heq]
        exact .report arguments (hwithin.hasClause hclause)
      have hnone₂ : s₂.types.heritage? t = some none := by rw [heq, hnone₁]
      have hlast := hreport.trans (.setBase s₂ hnone₂ none) (by simp)
      have hall := hwithin.trans hlast fun u hu hmem => absurd (some.inj hu ▸ hmem) hnew
      refine ⟨?_, hsettles (hall.hasClause hclause) (hlast.models hmodels)
        (.inr ⟨hbecomes hnone₂, hlast.reaches hreach⟩), _, hall,
        fun _ => ⟨hbecomes hnone₂, clause, hall.hasClause hclause⟩, fun _ => by simp⟩
      subst heq
      exact hs₁.aside hlast rfl rfl rfl rfl

end

/-- A model is entered as a stub. -/
theorem opened_tally (node : NodeId) (key marks : List TypeId) (hbase : m.base = none)
    (hs : Traced tree p s) :
    Traced tree p (s.opened node key (.model m) marks) ∧
    Tally tree target (some s.types.nextId) s (s.opened node key (.model m) marks) [] ∧
    (s.opened node key (.model m) marks).types.Models node s.types.nextId ∧
    (s.opened node key (.model m) marks).types.heritage? s.types.nextId = some none := by
  have hher : (s.opened node key (.model m) marks).types.heritage? s.types.nextId =
      some none := by
    rw [TypeTable.heritage?, model?_eq_some_iff.mpr (opened_shape _ _ _ _),
      map_some, hbase]
  have hmodels : (s.opened node key (.model m) marks).types.Models node s.types.nextId := by
    refine ⟨?_, by rw [hher]; rfl⟩
    exact congrArg (bind · TypeRecord.node) (get?_push_nextId s.types _)
  have htally : Tally tree target (some s.types.nextId) s (s.opened node key (.model m) marks)
      [] := by
    refine .idle (fun id hid => ⟨(Grows.push s.types _).has hid, ?_,
      heritage?_push_of_has _ hid⟩) (fun hne hnot hstates => ?_) rfl
    · exact congrArg (bind · TypeRecord.node) (get?_push_of_has hid)
    · exact hne (congrArg some (eq_nextId_of_push hstates.1.has hnot).symm)
  refine ⟨⟨hs.bindings, hs.mergedSymbols, fun hkind ht => htally.models (hs.declared hkind ht),
    fun {n parts key' t} hkind ht => ?_⟩, htally, hmodels, hher⟩
  change (s.pending.insert (node, key) s.types.nextId).find? (n, key') = some t at ht
  obtain ⟨heq, rfl⟩ | ht := OrderedMap.find?_insert_cases ht
  · cases heq
    exact hmodels
  · exact htally.models (hs.pending hkind ht)

/-- A model that is complete is recorded. -/
theorem closed_reckons {node : NodeId} {t : TypeId} {isTemplate instantiating : Bool}
    (hcons : Bindings.Consistent env.tree p.bindings)
    (h : Closed env.tree node key t isTemplate instantiating s s')
    (hmodels : s.types.Models node t) : Reckons env.tree p s s' := by
  have hind := reckons_indifferent hcons
  -- the model is not under construction any longer
  have herased : ∀ s : State, Reckons env.tree p s
      { s with pending := s.pending.erase (node, key) } := by
    intro s hs
    have htally : Tally env.tree (p.declarationOf? env.tree) none s
        { s with pending := s.pending.erase (node, key) } [] := .aside rfl rfl
    refine ⟨hs.tally htally rfl rfl (fun _ hu => hu) fun {n parts key' u} _ hu => ?_, [], htally⟩
    exact OrderedMap.find?_of_find?_erase hu
  cases h with
  | instantiated => exact herased s
  | declared heq =>
    subst heq
    have hlisted : Reckons env.tree p (s.declare (s.bindings.symbolOf? node) t t isTemplate key)
        ((s.declare (s.bindings.symbolOf? node) t t isTemplate key).enlist env.tree node t) := by
      rw [State.enlist]
      split
      · exact hind.amended (heritage?_modifyNamespace _ _)
      · exact hind.refl _
    refine hind.trans (fun hs => ?_) (hind.trans hlisted (herased _))
    have htally : Tally env.tree (p.declarationOf? env.tree) none s
        (s.declare (s.bindings.symbolOf? node) t t isTemplate key) [] :=
      .aside (s.types_declare _ _ _ _ _) (by rw [State.declare_eq])
    refine ⟨⟨?_, ?_, fun hkind hu => htally.models ?_, fun hkind hu => htally.models ?_⟩, [],
      htally⟩
    · rw [State.declare_eq]
      exact hs.bindings
    · rw [State.declare_eq]
      exact hs.mergedSymbols
    · obtain ⟨rfl, rfl⟩ | hbefore :=
        declaredTypeOfNode_declare (hs.bindings ▸ hcons) hkind hu
      · exact hmodels
      · exact hs.declared hkind hbefore
    · rw [State.declare_eq] at hu
      exact hs.pending hkind hu

section

variable {p : State} {node : NodeId} {parts : ModelNode} {t : TypeId}
  (hcons : Bindings.Consistent env.tree p.bindings)
  (hcheck : ∀ n, Obeys env (Reckons env.tree p) (check n)) (hfinds : Finds env p check)

include hcons hcheck hfinds

section

variable (hkind : env.tree.kind? node = some (.modelStatement parts))
  (hcopied : parts.copied = none)
  (hasks : ∀ clause, parts.base = some clause → ∃ n, Asks env.tree p clause n ∧
    p.declarationOf? env.tree clause = some n)
  (hs : Traced env.tree p s)

include hkind hcopied hasks hs

/-- While a model is built, it gets its base, and nothing else is done to what models extend. -/
theorem buildModel_tally (hown : s.types.Models node t) (hnone : s.types.heritage? t = some none)
    {u : Unit} (hrun : buildModel check node parts t env s = some (u, s')) :
    Traced env.tree p s' ∧ s'.types.Settled env.tree (p.declarationOf? env.tree) t ∧ ∃ cuts,
      Tally env.tree (p.declarationOf? env.tree) (some t) s s' cuts ∧
      (t ∈ cuts.map Prod.fst ↔ s'.types.Severed env.tree t) := by
  have h := reckons_indifferent hcons
  obtain ⟨_, s₁, hbase, hrest⟩ := run_bind.mp hrun
  obtain ⟨hs₁, hsettled, before, htally, hsev⟩ :=
    checkBase_tally hcheck hfinds hkind hasks hs hown hnone hbase
  have hserves : h.rules.Serves check check node := fun n _ => hcheck n
  obtain ⟨hs', after, hrest⟩ := h.rules.fillModel t hkind hserves (fun _ _ => by
    rw [hcopied]
    exact h.pure []) hrest hs₁
  have hhas : s₁.types.Has t := htally.has hown.has
  obtain ⟨hwithin, hnew⟩ := hrest.within hhas
  refine ⟨hs', hrest.settled_mono hhas (by simp) hsettled, before ++ after,
    htally.trans hwithin fun u hu _ => some.inj hu ▸ hnew, ?_⟩
  rw [hrest.severed_iff hhas (by simp), ← hsev, map_append, mem_append,
    or_iff_left hnew]

/-- The check of a model statement accounts for what is reported, and finds the model. -/
theorem checkModel_tally (hrun : checkModel check node parts env s = some (t, s')) :
    (Traced env.tree p s' ∧ ∃ cuts,
      Tally env.tree (p.declarationOf? env.tree) none s s' cuts) ∧ s'.types.Models node t := by
  have h := reckons_indifferent hcons
  cases checkModel_evaluates hkind hrun with
  | known _ _ _ hknown => exact ⟨⟨hs, [], .refl _ _⟩, hs.declared hkind hknown⟩
  | pending hkey hpend =>
    have hkeyed := h.rules.templateKey _ hkey hs
    exact ⟨hkeyed, hkeyed.1.pending hkind hpend⟩
  | @construct s₁ s₃ _ key _ _ _ hkey _ _ _ _ hbuilt hclosed =>
    obtain ⟨hs₁, cuts, htally⟩ := h.rules.templateKey _ hkey hs
    cases hbuilt with
    | interface hother => simp [hkind] at hother
    | model hsame _ hbase hbuild =>
      cases hkind.symm.trans hsame
      obtain ⟨hopened, hstub, hown, hnone⟩ := opened_tally node key _ hbase hs₁
      obtain ⟨hs₃, hset, more, hbuilt, hsev⟩ :=
        buildModel_tally hcons hcheck hfinds hkind hcopied hasks hopened hown hnone hbuild
      have hmade : Tally env.tree (p.declarationOf? env.tree) none s₁ s₃ more :=
        (hstub.trans hbuilt (by simp)).complete not_has_nextId hsev hset
      have hmodels := hbuilt.models hown
      have hleft : Traced env.tree p { s₃ with building := s₁.building } := { hs₃ with }
      obtain ⟨hs', after, hclosed⟩ := closed_reckons hcons hclosed hmodels hleft
      have haside : Tally env.tree (p.declarationOf? env.tree) none s₃
          { s₃ with building := s₁.building } [] := .aside rfl rfl
      have hall := htally.trans (hmade.trans (haside.trans hclosed (by simp)) (by simp)) (by simp)
      exact ⟨⟨hs', _, hall⟩, hclosed.models hmodels⟩
  | _ => simp_all [Tree.isRemembered, Tree.isListed]

end

end

/-! ### Programs in which models extend the models that they name -/

/-- Models extend models that they name, and nothing else is inherited: there are no templates, no
model is copied, and every base is given by a reference to a model. -/
structure DirectBases (tree : Tree) (p : State) : Prop where
  plain (n : NodeId) : tree.templateParameters n = []
  copied {n : NodeId} {parts : ModelNode} : tree.kind? n = some (.modelStatement parts) →
    parts.copied = none
  direct {n clause : NodeId} {parts : ModelNode} : tree.kind? n = some (.modelStatement parts) →
    parts.base = some clause → ∃ target arguments base baseParts,
      tree.kind? clause = some (.typeReference target arguments) ∧
      p.declarationOf? tree clause = some base ∧
      tree.kind? base = some (.modelStatement baseParts)

section

variable {p : State} (hwf : env.tree.WellFormed)
  (hcons : Bindings.Consistent env.tree p.bindings) (hdirect : DirectBases env.tree p)

include hwf hcons hdirect

/-- Every check accounts for what is reported and finds the models that it is asked for, however
deeply it is nested. -/
theorem checkNode_reckons (depth : Nat) :
    (∀ n, Obeys env (Reckons env.tree p) (checkNode depth n)) ∧ Finds env p (checkNode depth) := by
  induction depth with
  | zero =>
    exact ⟨fun _ _ _ _ hrun => absurd hrun run_checkNode_zero,
      fun _ _ hrun => absurd hrun run_checkNode_zero⟩
  | succ depth ih =>
    obtain ⟨hcheck, hfinds⟩ := ih
    have hmodel : ∀ {node parts s s' t}, env.tree.kind? node = some (.modelStatement parts) →
        Traced env.tree p s → checkModel (checkNode depth) node parts env s = some (t, s') →
        (Traced env.tree p s' ∧ ∃ cuts,
          Tally env.tree (p.declarationOf? env.tree) none s s' cuts) ∧ s'.types.Models node t := by
      intro node parts s s' t hkind hs hrun
      refine checkModel_tally hcons hcheck hfinds hkind (hdirect.copied hkind)
        (fun clause hclause => ?_) hs hrun
      obtain ⟨_, _, base, _, href, hleads, hbase⟩ := hdirect.direct hkind hclause
      exact ⟨base, .reference href hleads hbase, hleads⟩
    have hcovers : (reckons_indifferent hcons).rules.Covers (checkNode depth)
        (checkNode depth) := hcheck
    refine ⟨fun node => DeclarationRules.checkStep _ hcovers fun parts hkind _ _ _ hrun hs =>
      (hmodel hkind hs hrun).1, fun {node n s s' t} hasks hs hrun => ?_⟩
    cases hasks with
    | statement hkind =>
      simp only [checkNode, checkStep, getTree_bind, hkind] at hrun
      exact (hmodel hkind hs hrun).2
    | reference hkind hleads hn =>
      simp only [checkNode, checkStep, getTree_bind, hkind] at hrun
      exact checkTypeReference_finds hwf hcons hcheck hfinds hdirect.plain hkind hleads hn hs
        hrun

theorem Checked.reckons (h : Checked env s s') : Reckons env.tree p s s' := by
  have hind := reckons_indifferent hcons
  exact h.preserves (hind.refl s) fun depth hbefore hrun =>
    hind.trans hbefore ((checkNode_reckons hwf hcons hdirect depth).1 _ hrun)

end

end Checking

end ApiSchema
