import ApiSchema.Proofs.Checking.DuplicateNames
import ApiSchema.Proofs.Checking.Idempotence
import ApiSchema.Proofs.Memoization.UniqueTypes
import ApiSchema.Proofs.Models.AcyclicBases
import ApiSchema.Proofs.Models.Severance
import Mathlib.Data.Set.Card

/-!
# Cycles of models that extend each other

If models extend the models that they name, then what they name may lead in circles. Each circle is
broken at one model, wherever the checks begin: it is reported there, and that model alone is left
without a base.
-/

namespace ApiSchema

open Relation TypeTable Tree Option

/-! ### Cycles -/

section

variable {α : Type} {r kept : α → α → Prop} {cut : Set α} {a b c : α}

/-- The cycles of a relation in which everything has one successor: what is reached from something
that is reached from itself. -/
def cycles (r : α → α → Prop) : Set (Set α) :=
  { C | ∃ a, TransGen r a a ∧ C = { b | TransGen r a b } }

/-- What is kept of a relation is acyclic, and what is cut off leads back to where it was cut. -/
structure CutsBack (r kept : α → α → Prop) (cut : Set α) : Prop where
  functional {a b c : α} : r a b → r a c → b = c
  sub {a b : α} : kept a b → r a b
  rest {a b : α} : r a b → a ∉ cut → kept a b
  back {a : α} : a ∈ cut → ∃ b, r a b ∧ ReflTransGen kept b a
  severed {a b : α} : a ∈ cut → ¬ kept a b
  acyclic (a : α) : ¬ TransGen kept a a

namespace CutsBack

variable (h : CutsBack r kept cut)

include h

/-- On a cycle everything leads back. -/
theorem reaches_back (ha : TransGen r a a) (hb : TransGen r a b) : TransGen r b a := by
  have hstep : ∀ {b c}, TransGen r b a → r b c → TransGen r c a := by
    intro b c hba hbc
    obtain ⟨d, hbd, hda⟩ := TransGen.head'_iff.mp hba
    obtain rfl := h.functional hbc hbd
    rcases reflTransGen_iff_eq_or_transGen.mp hda with rfl | hda
    · exact ha
    · exact hda
  induction hb with
  | single hab => exact hstep ha hab
  | tail _ hbc ih => exact hstep ih hbc

theorem on_cycle (ha : a ∈ cut) : TransGen r a a := by
  obtain ⟨b, hab, hba⟩ := h.back ha
  exact TransGen.head' hab (ReflTransGen.mono (fun _ _ => h.sub) _ _ hba)

/-- What is reached from a cut leads back to it over what is kept. -/
theorem kept_back (ha : a ∈ cut) (hb : TransGen r a b) : ReflTransGen kept b a := by
  obtain ⟨first, hfirst, hback⟩ := h.back ha
  induction hb with
  | single hab => exact h.functional hfirst hab ▸ hback
  | tail _ hbc ih =>
    rcases ReflTransGen.cases_head ih with rfl | ⟨d, hbd, hda⟩
    · exact h.functional hfirst hbc ▸ hback
    · exact h.functional (h.sub hbd) hbc ▸ hda

/-- There is one cut on each cycle. -/
theorem existsUnique {C : Set α} (hC : C ∈ cycles r) : ∃! a, a ∈ C ∧ a ∈ cut := by
  obtain ⟨a, ha, rfl⟩ := hC
  obtain ⟨b, hb, hcut⟩ : ∃ b, TransGen r a b ∧ b ∈ cut := by
    by_contra hnone
    push Not at hnone
    have hkept : ∀ {b}, TransGen r a b → TransGen kept a b := by
      intro b hb
      induction hb with
      | single hab => exact .single (h.rest hab (hnone a ha))
      | tail hab hbc ih => exact ih.tail (h.rest hbc (hnone _ hab))
    exact h.acyclic a (hkept ha)
  refine ⟨b, ⟨hb, hcut⟩, fun c ⟨hc, hcut'⟩ => ?_⟩
  have hbc : TransGen r b c := (h.reaches_back ha hb).trans hc
  rcases ReflTransGen.cases_head (h.kept_back hcut hbc) with heq | ⟨d, hcd, -⟩
  · exact heq
  · exact absurd hcd (h.severed hcut')

/-- There are as many cuts as cycles. -/
theorem encard_eq : (cycles r).encard = cut.encard := by
  have hinjective : Set.InjOn (fun a => { b | TransGen r a b }) cut := by
    intro a ha b hb heq
    have hmem : b ∈ { c | TransGen r a c } := by
      rw [show { c | TransGen r a c } = { c | TransGen r b c } from heq]
      exact h.on_cycle hb
    obtain ⟨c, -, hunique⟩ := h.existsUnique ⟨a, h.on_cycle ha, rfl⟩
    exact (hunique a ⟨h.on_cycle ha, ha⟩).trans (hunique b ⟨hmem, hb⟩).symm
  rw [← hinjective.encard_image]
  congr 1
  refine Set.ext fun C => ⟨fun hC => ?_, ?_⟩
  · obtain ⟨b, ⟨hb, hcut⟩, -⟩ := h.existsUnique hC
    obtain ⟨a, ha, rfl⟩ := hC
    exact ⟨b, hcut, Set.ext fun _ => ⟨hb.trans, (h.reaches_back ha hb).trans⟩⟩
  · rintro ⟨a, ha, rfl⟩
    exact ⟨a, h.on_cycle ha, rfl⟩

end CutsBack

end

namespace Checking

variable {env : Environment} {check : Check} {s s' : State}

/-! ### Programs without templates -/

/-- There are no instances. -/
def State.Uninstantiated (s : State) : Prop := ∀ symbol, (s.linksOf symbol).instances = .empty

section

variable (hplain : ∀ n, env.tree.templateParameters n = [])

include hplain

theorem uninstantiated_declare {node : NodeId} {kind : NodeKind} {known type : TypeId}
    {symbol : Option SymbolId} {isTemplate : Bool} {key : List TypeId}
    (hkind : env.tree.kind? node = some kind)
    (htempl : isTemplate = true → kind.templateParameters ≠ []) (hs : s.Uninstantiated) :
    (s.declare symbol known type isTemplate key).Uninstantiated := by
  have hnot : isTemplate = false := by
    by_contra hne
    refine htempl (by simpa using hne) ?_
    simpa [templateParameters, hkind] using hplain node
  cases symbol with
  | none => exact hs
  | some symbol =>
    intro other
    rw [State.declare, linksOf_modifyLinks, hnot]
    split
    · exact hs symbol
    · exact hs other

theorem uninstantiated_indifferent :
    Indifferent env fun s s' => s.Uninstantiated → s'.Uninstantiated where
  refl _ hs := hs
  trans h h' hs := h' (h hs)
  told _ _ hs := hs
  added _ hs := hs
  amended _ hs := hs
  declared hkind _ htempl hs := uninstantiated_declare hplain hkind htempl hs
  instantiated _ _ _ _ hparams := absurd (hplain _) hparams
  pended _ hs := hs
  aside _ _ _ hlinks _ _ hs symbol := by
    rw [State.linksOf, hlinks]
    exact hs symbol

/-- No check makes instances if there are no templates. -/
theorem checkNode_uninstantiated (depth : Nat) (node : NodeId) :
    Obeys env (fun s s' => s.Uninstantiated → s'.Uninstantiated) (checkNode depth node) := by
  have h : Indifferent env fun s s' => s.Uninstantiated → s'.Uninstantiated :=
    uninstantiated_indifferent hplain
  let r : ModelRules env.tree :=
    { h.rules with
      addModel := fun _ _ s _ s' hrun => by
        rw [(run_addType.mp hrun).2]
        exact id
      declareModel := fun _ _ hkind htempl => .modify fun _ =>
        uninstantiated_declare hplain hkind htempl
      pendModel := fun _ _ _ => .modify fun _ => id
      unpendModel := fun _ _ => .modify fun _ => id }
  induction depth generalizing node with
  | zero => exact fun _ _ _ hrun => absurd hrun run_checkNode_zero
  | succ depth ih =>
    have hcovers : r.Covers (checkNode depth) (checkNode depth) := ih
    refine r.checkStep hcovers fun parts hkind type => r.buildModel (fun message arguments place => ?_)
      (fun _ _ => .modify fun _ => id) type hkind (hcovers.serves node)
    intro s _ s' hrun hs
    rw [(report_quiet hrun).eq]
    exact hs

end

/-- Without templates a model statement that is bound has one type. -/
theorem declaredType_of_models {tree : Tree} {d : Subject} {t : TypeId}
    (hmemo : Memoized tree d s) (hpend : s.pending = .empty)
    (hinsts : s.Uninstantiated) (hplain : tree.templateParameters d.node = [])
    (hmodels : s.types.Models d.node t) : s.declaredType? d.symbol = some t := by
  obtain ⟨hnode, hmodel⟩ := hmodels
  obtain ⟨m, hm⟩ := exists_model_iff.mpr hmodel
  obtain ⟨row, hrow, hshape⟩ := map_eq_some_iff.mp (model?_eq_some_iff.mp hm)
  rw [TypeTable.node?, hrow, bind_some] at hnode
  have hbuilt : s.types.Instantiates d.node m.templateArguments t :=
    ⟨row, m.templateNode, hrow, by rw [hshape]; rfl, Or.inl hnode⟩
  obtain ⟨own, hown, hfound⟩ := hmemo.rows hbuilt
  rw [State.openKey?, hplain, List.mapM_nil] at hown
  obtain rfl : [] = own := some.inj hown
  rw [State.lookup?, hpend, OrderedMap.find?_empty, none_or, State.recorded?,
    State.openKey?, hplain, List.mapM_nil, pure_def, hinsts, OrderedMap.find?_empty] at hfound
  by_cases hnone : m.templateArguments = []
  · rwa [if_pos hnone, if_pos rfl] at hfound
  · rw [if_neg hnone, if_neg fun heq => hnone (some.inj heq).symm] at hfound
    simp at hfound

/-! ### What is reported before the first check -/

/-- No model is reported when the files are merged. -/
theorem prepare_recursions {u : Unit} (hrun : prepare env s = some (u, s'))
    (hs : s.recursions = []) : s'.recursions = [] := by
  obtain ⟨-, rfl⟩ | ⟨-, s₁, s₂, husings, hcont, htypes⟩ := prepare_stages hrun
  · exact hs
  obtain ⟨more, hmore, hmessages⟩ := Tells.forM checkUsing_tells _ _ _ _ husings
  have hmerged : (State.mergeFiles { s with initialized := true } env.tree.files).diagnostics =
      s.diagnostics := by
    rw [State.mergeFiles_enters { s with initialized := true }]
  have hother : ∀ d : Diagnostic, d.message.code < 1010 → d.code ≠ 3009 := by
    intro d hd hcode
    rw [Diagnostic.code] at hcode
    omega
  rw [State.recursions, (createNamespaceTypes_keep htypes).2.2, reportContestedNames_eq hcont]
  change (s₁.diagnostics.toList ++ _).filter _ = []
  rw [hmore, hmerged, List.append_assoc, List.filter_append, ← State.recursions, hs,
    List.nil_append, List.filter_eq_nil_iff]
  intro d hd
  rw [decide_eq_true_iff]
  refine hother d ?_
  rcases List.mem_append.mp hd with hd | hd
  · exact Nat.lt_succ_of_lt (hmessages d hd)
  · obtain ⟨id, -, hreport⟩ := List.mem_filterMap.mp hd
    obtain ⟨symbol, -, rfl⟩ := map_eq_some_iff.mp hreport
    rw [diagnosticAt]
    split <;> exact Nat.lt_succ_self 1009

/-! ### Cycles of statements -/

/-- A model statement that is bound names another one as its base. -/
def State.Inherits (s : State) (tree : Tree) (n base : NodeId) : Prop :=
  ∃ parts clause, tree.kind? n = some (.modelStatement parts) ∧ parts.base = some clause ∧
    (s.bindings.symbolOf? n).isSome = true ∧ s.declarationOf? tree clause = some base

/-- What the declared type of a statement extends, if it is a model. -/
def State.baseOf? (s : State) (n : NodeId) : Option (Option TypeId) :=
  (s.declaredTypeOfNode? n).bind s.types.heritage?

/-- The model of a statement extends the model of another one. -/
def State.Derives (s : State) (tree : Tree) (n base : NodeId) : Prop :=
  ∃ parts t u, tree.kind? n = some (.modelStatement parts) ∧ s.declaredTypeOfNode? n = some t ∧
    s.types.Models base u ∧ s.types.Extends t u

/-- The statements that name a base and whose models have none. -/
def State.severed (s : State) (tree : Tree) : Set NodeId :=
  { n | ∃ parts t, tree.kind? n = some (.modelStatement parts) ∧
    s.declaredTypeOfNode? n = some t ∧ s.types.Severed tree t }

/-- What is known of models when all of them have been checked. -/
structure Concluded (tree : Tree) (s : State) (cuts : List (TypeId × Diagnostic)) : Prop where
  direct : DirectBases tree s
  consistent : Bindings.Consistent tree s.bindings
  acyclic : s.types.Acyclic
  settled (t : TypeId) : s.types.Settled tree (s.declarationOf? tree) t
  models {n : NodeId} {parts : ModelNode} {t : TypeId} :
    tree.kind? n = some (.modelStatement parts) → s.declaredTypeOfNode? n = some t →
    s.types.Models n t
  declared {n : NodeId} {parts : ModelNode} {t : TypeId} :
    tree.kind? n = some (.modelStatement parts) → (s.bindings.symbolOf? n).isSome = true →
    s.types.Models n t → s.declaredTypeOfNode? n = some t
  covered {n : NodeId} {parts : ModelNode} :
    tree.kind? n = some (.modelStatement parts) → (s.bindings.symbolOf? n).isSome = true →
    ∃ t, s.declaredTypeOfNode? n = some t
  reported : s.recursions = cuts.map Prod.snd
  placed : ∀ cut ∈ cuts, ∃ clause arguments, s.types.HasClause tree cut.1 clause ∧
    cut.2 = diagnosticAt tree .recursiveBase arguments (some clause)
  distinct : (cuts.map Prod.fst).Nodup
  severed {t : TypeId} : t ∈ cuts.map Prod.fst ↔ s.types.Severed tree t

namespace Concluded

variable {tree : Tree} {cuts : List (TypeId × Diagnostic)} {n base : NodeId} {parts : ModelNode}
  {t u : TypeId} (h : Concluded tree s cuts)

include h

/-- What a clause names is a model statement that is bound. -/
theorem bound {clause : NodeId} (hkind : tree.kind? n = some (.modelStatement parts))
    (hclause : parts.base = some clause) : ∃ base parts', s.declarationOf? tree clause = some base ∧
      tree.kind? base = some (.modelStatement parts') ∧
      (s.bindings.symbolOf? base).isSome = true := by
  obtain ⟨_, _, base, parts', -, hleads, hbase⟩ := h.direct.direct hkind hclause
  refine ⟨base, parts', hleads, hbase, ?_⟩
  obtain ⟨id, symbol, -, hsym, hnode⟩ := State.declarationOf?_eq_some_iff.mp hleads
  have hmodelKind : symbol.kind = .model :=
    (some.inj (symbolKind_of_node h.consistent hsym hnode hbase)).symm
  rw [symbolOf_of_node h.consistent hsym hnode (by simp [hmodelKind])]
  rfl

/-- A model extends only the model that its statement names. -/
theorem named (hkind : tree.kind? n = some (.modelStatement parts)) (hmodels : s.types.Models n t)
    (hext : s.types.Extends t u) : ∃ clause base parts', parts.base = some clause ∧
      s.declarationOf? tree clause = some base ∧ s.types.Models base u ∧
      tree.kind? base = some (.modelStatement parts') ∧
      (s.bindings.symbolOf? base).isSome = true := by
  rw [extends_iff] at hext
  cases hbase : parts.base with
  | none =>
    have hnone := (h.settled t).unnamed ⟨hmodels, hkind⟩ hbase
    simp [hnone] at hext
  | some clause =>
    obtain ⟨base, parts', hleads, hbound⟩ := h.bound hkind hbase
    obtain ⟨base', u', hleads', hmodels', hcases⟩ :=
      (h.settled t).named ⟨n, parts, ⟨hmodels, hkind⟩, hbase⟩
    obtain rfl := mem_unique hleads hleads'
    obtain heq | ⟨hnone, -⟩ := hcases
    · obtain rfl := some.inj (some.inj (hext.symm.trans heq))
      exact ⟨clause, base, parts', rfl, hleads, hmodels', hbound⟩
    · simp [hnone] at hext

/-- What models extend their statements derive from. -/
theorem derives_of_reaches (hreach : ReflTransGen s.types.Extends t u)
    (hkind : tree.kind? n = some (.modelStatement parts))
    (hbound : (s.bindings.symbolOf? n).isSome = true) (hmodels : s.types.Models n t)
    (hbase : s.types.Models base u) : ReflTransGen (s.Derives tree) n base := by
  induction hreach using ReflTransGen.head_induction_on generalizing n parts with
  | refl => exact mem_unique hmodels.1 hbase.1 ▸ .refl
  | @head t v hext _ ih =>
    obtain ⟨clause, m, parts', -, -, hm, hkind', hbound'⟩ := h.named hkind hmodels hext
    exact .head ⟨parts, t, v, hkind, h.declared hkind hbound hmodels, hm, hext⟩
      (ih hkind' hbound' hm)

/-- A model that is severed is built from a statement that is bound: it is the model that its clause
names, or one that this model comes to extend. -/
theorem bound_of_severed (hsev : s.types.Severed tree t) :
    ∃ n parts, s.types.States tree n parts t ∧ (s.bindings.symbolOf? n).isSome = true := by
  obtain ⟨hnone, clause, n, parts, hstates, hclause⟩ := hsev
  refine ⟨n, parts, hstates, ?_⟩
  obtain ⟨base, parts', hleads, hkind, hbound⟩ := h.bound hstates.2 hclause
  obtain ⟨base', u, hleads', hu, heq | ⟨-, hreach⟩⟩ :=
    (h.settled t).named ⟨n, parts, hstates, hclause⟩
  · simp [hnone] at heq
  · obtain rfl := mem_unique hleads hleads'
    have hderives := h.derives_of_reaches hreach hkind hbound hu hstates.1
    rcases ReflTransGen.cases_tail hderives with rfl | ⟨m, -, parts', v, w, hm, hv, hw, hext⟩
    · exact hbound
    · obtain ⟨_, _, _, -, -, hw', -, hbound'⟩ := h.named hm (h.models hm hv) hext
      exact mem_unique hw'.1 hw.1 ▸ hbound'

theorem reaches_of_derives (hderives : TransGen (s.Derives tree) n base)
    (ht : s.declaredTypeOfNode? n = some t) :
    ∃ u, s.types.Models base u ∧ TransGen s.types.Extends t u := by
  induction hderives with
  | single hstep =>
    obtain ⟨_, t', u, -, ht', hu, hext⟩ := hstep
    obtain rfl := mem_unique ht ht'
    exact ⟨u, hu, .single hext⟩
  | tail _ hstep ih =>
    obtain ⟨v, hv, hreach⟩ := ih
    obtain ⟨parts, v', u, hkind, hv', hu, hext⟩ := hstep
    obtain ⟨id, hid, -⟩ := bind_eq_some_iff.mp hv'
    have hsame := h.declared hkind (by rw [hid]; rfl) hv
    obtain rfl := mem_unique hsame hv'
    exact ⟨u, hu, hreach.tail hext⟩

/-- The models that are severed cut the cycles of statements. -/
theorem cutsBack : CutsBack (s.Inherits tree) (s.Derives tree) (s.severed tree) where
  functional := by
    rintro n base base' ⟨parts, clause, hkind, hclause, -, hleads⟩
      ⟨parts', clause', hkind', hclause', -, hleads'⟩
    obtain rfl := NodeKind.modelStatement.inj (mem_unique hkind hkind')
    obtain rfl := mem_unique hclause hclause'
    exact mem_unique hleads hleads'
  sub := by
    rintro n base ⟨parts, t, u, hkind, ht, hu, hext⟩
    obtain ⟨clause, base', -, hclause, hleads, hu', -⟩ := h.named hkind (h.models hkind ht) hext
    obtain rfl := mem_unique hu.1 hu'.1
    obtain ⟨id, hid, -⟩ := bind_eq_some_iff.mp ht
    exact ⟨parts, clause, hkind, hclause, by rw [hid]; rfl, hleads⟩
  rest := by
    rintro n base ⟨parts, clause, hkind, hclause, hbound, hleads⟩ hnot
    obtain ⟨t, ht⟩ := h.covered hkind hbound
    have hmodels := h.models hkind ht
    have hnamed : s.types.HasClause tree t clause := ⟨n, parts, ⟨hmodels, hkind⟩, hclause⟩
    obtain ⟨base', u, hleads', hu, heq | ⟨hnone, -⟩⟩ := (h.settled t).named hnamed
    · obtain rfl := mem_unique hleads hleads'
      exact ⟨parts, t, u, hkind, ht, hu, extends_iff.mpr heq⟩
    · exact absurd ⟨parts, t, hkind, ht, hnone, clause, hnamed⟩ hnot
  back := by
    rintro n ⟨parts, t, hkind, ht, hnone, clause, hnamed⟩
    have hmodels := h.models hkind ht
    obtain ⟨base, u, hleads, hu, heq | ⟨-, hreach⟩⟩ := (h.settled t).named hnamed
    · simp [hnone] at heq
    · obtain ⟨n', parts', hstates, hclause⟩ := hnamed
      obtain ⟨rfl, rfl⟩ := hstates.unique ⟨hmodels, hkind⟩
      obtain ⟨base', baseParts, hleads', hbase, hbound⟩ := h.bound hkind hclause
      obtain rfl := mem_unique hleads hleads'
      obtain ⟨id, hid, -⟩ := bind_eq_some_iff.mp ht
      exact ⟨base, ⟨parts', clause, hkind, hclause, by rw [hid]; rfl, hleads⟩,
        h.derives_of_reaches hreach hbase hbound hu hmodels⟩
  severed := by
    rintro n base ⟨parts, t, -, ht, hnone, -⟩ ⟨_, t', u, -, ht', -, hext⟩
    obtain rfl := mem_unique ht ht'
    simp [extends_iff, hnone] at hext
  acyclic := by
    intro n hcycle
    obtain ⟨_, ⟨parts, t, _, hkind, ht, -⟩, -⟩ := TransGen.head'_iff.mp hcycle
    obtain ⟨u, hu, hreach⟩ := h.reaches_of_derives hcycle ht
    obtain ⟨id, hid, -⟩ := bind_eq_some_iff.mp ht
    have hsame := h.declared hkind (by rw [hid]; rfl) hu
    obtain rfl := mem_unique hsame ht
    exact h.acyclic.2 u hreach

theorem mem_severed_iff (hinh : s.Inherits tree n base) :
    n ∈ s.severed tree ↔ s.baseOf? n = some none := by
  obtain ⟨parts, clause, hkind, hclause, -⟩ := hinh
  constructor
  · rintro ⟨_, t, -, ht, hnone, -⟩
    rw [State.baseOf?, ht, bind_some, hnone]
  · intro hbase
    obtain ⟨t, ht, hnone⟩ := bind_eq_some_iff.mp hbase
    exact ⟨parts, t, hkind, ht, hnone, clause, n, parts, ⟨h.models hkind ht, hkind⟩, hclause⟩

/-- A severed model is reported at its clause. -/
theorem reported_of_severed (hsev : n ∈ s.severed tree) :
    ∃ parts clause arguments, tree.kind? n = some (.modelStatement parts) ∧
      parts.base = some clause ∧
      diagnosticAt tree .recursiveBase arguments (some clause) ∈ s.recursions := by
  obtain ⟨parts, t, hkind, ht, hsev⟩ := hsev
  obtain ⟨cut, hcut, rfl⟩ := List.mem_map.mp (h.severed.mpr hsev)
  obtain ⟨clause, arguments, ⟨n', parts', hstates, hclause⟩, heq⟩ := h.placed cut hcut
  obtain ⟨rfl, rfl⟩ := hstates.unique ⟨h.models hkind ht, hkind⟩
  refine ⟨parts', clause, arguments, hkind, hclause, ?_⟩
  rw [h.reported, ← heq]
  exact List.mem_map_of_mem hcut

theorem base_of_derives (hinh : s.Inherits tree n base) (hderives : s.Derives tree n base) :
    ∃ t, s.declaredTypeOfNode? base = some t ∧ s.baseOf? n = some (some t) := by
  obtain ⟨parts, clause, hkind, hclause, -, hleads⟩ := hinh
  obtain ⟨base', parts', hleads', hbase, hbound⟩ := h.bound hkind hclause
  obtain rfl := mem_unique hleads hleads'
  obtain ⟨_, t, u, -, ht, hu, hext⟩ := hderives
  refine ⟨u, h.declared hbase hbound hu, ?_⟩
  rw [State.baseOf?, ht, bind_some]
  exact extends_iff.mp hext

/-- There are as many reports as severed statements. -/
theorem encard_severed : (s.severed tree).encard = s.recursions.length := by
  have hinjective : Set.InjOn s.declaredTypeOfNode? (s.severed tree) := by
    rintro n ⟨parts, t, hkind, ht, -⟩ n' ⟨parts', t', hkind', ht', -⟩ heq
    obtain rfl := mem_unique ht (heq.trans ht')
    exact some.inj ((h.models hkind ht).1.symm.trans (h.models hkind' ht').1)
  have himage : s.declaredTypeOfNode? '' s.severed tree = some '' { t | t ∈ cuts.map Prod.fst } := by
    refine Set.ext fun answer => ⟨?_, ?_⟩
    · rintro ⟨n, ⟨parts, t, -, ht, hsev⟩, rfl⟩
      exact ⟨t, h.severed.mpr hsev, ht.symm⟩
    · rintro ⟨t, ht, rfl⟩
      have hsev := h.severed.mp ht
      obtain ⟨n, parts, ⟨hmodels, hkind⟩, hbound⟩ := h.bound_of_severed hsev
      have hdecl := h.declared hkind hbound hmodels
      exact ⟨n, ⟨parts, t, hkind, hdecl, hsev⟩, hdecl⟩
  rw [← hinjective.encard_image, himage, (some_injective _).encard_image, h.reported,
    List.length_map, ← List.length_map (f := Prod.fst), ← List.toFinset_card_of_nodup h.distinct,
    ← Set.encard_coe_eq_coe_finsetCard, List.coe_toFinset]

end Concluded

/-! ### All models have been checked -/

section

variable {program : Program}

/-- Before anything is checked nothing is known of models. -/
theorem Blank.traced {bound : Bindings} {merged : Bool} (h : Blank env bound merged s) :
    Traced env.tree s s where
  bindings := rfl
  mergedSymbols := rfl
  declared _ ht := by
    obtain ⟨id, -, ht⟩ := bind_eq_some_iff.mp ht
    rw [State.declaredType?, h.declaredType] at ht
    simp at ht
  pending _ ht := by simp [h.pending] at ht

theorem DirectBases.congr {tree : Tree} (h : DirectBases tree s)
    (hbinds : s'.bindings = s.bindings) (hmerged : s'.mergedSymbols = s.mergedSymbols) :
    DirectBases tree s' where
  plain := h.plain
  copied := h.copied
  direct hkind hclause := by
    simp only [State.declarationOf?_congr hbinds hmerged]
    exact h.direct hkind hclause

/-- A session in which all models have been checked has reported one model for each that is
severed. -/
theorem Reached.concluded (h : Reached program s) (hdirect : DirectBases program.tree s)
    (hcovered : ∀ {n parts}, program.tree.kind? n = some (.modelStatement parts) →
      (s.bindings.symbolOf? n).isSome = true → ∃ t, s.declaredTypeOfNode? n = some t) :
    ∃ cuts, Concluded program.tree s cuts := by
  have hwf := h.wellFormed
  obtain ⟨bound, merged, p, hblank, hnone, hchk⟩ : ∃ bound merged p,
      Blank program.environment bound merged p ∧ p.recursions = [] ∧
        Checked program.environment p s := by
    obtain ⟨paths, rfl | ⟨p, hprep, hchk⟩⟩ := h.prepares
    · exact ⟨_, false, _, h.blank paths, rfl, .refl⟩
    · exact ⟨_, true, p, (h.blank paths).prepare hwf hprep, prepare_recursions hprep rfl, hchk⟩
  have hframe := hchk.frame hwf
  have hstart : DirectBases program.environment.tree p :=
    hdirect.congr hframe.bindings.symm hframe.mergedSymbols.symm
  obtain ⟨htraced, cuts, htally⟩ := hchk.reckons hwf hblank.consistent hstart hblank.traced
  have hmeaning : p.declarationOf? program.environment.tree =
      s.declarationOf? program.environment.tree :=
    funext (State.declarationOf?_congr hframe.bindings.symm hframe.mergedSymbols.symm)
  have hnew : ∀ {n t}, s.types.Models n t → ¬ p.types.Has t := by
    intro n t hmodels hhas
    obtain ⟨m, hm⟩ := exists_model_iff.mpr ((htally.models_iff hhas).mp hmodels).2
    rcases hblank.shape (model?_eq_some_iff.mp hm) with heq | ⟨_, heq⟩ <;> simp at heq
  have hinsts : s.Uninstantiated := hchk.preserves hblank.instances fun depth hs hrun =>
    checkNode_uninstantiated hdirect.plain depth _ hrun hs
  refine ⟨cuts, hdirect, hframe.bindings ▸ hblank.consistent, ?_, fun t => ?_, htraced.declared,
    fun {n parts t} hkind hbound hmodels => ?_, hcovered, ?_, htally.placed, htally.distinct, ?_⟩
  · exact hchk.upheld .acyclic hblank.acyclic
  · by_cases hhas : p.types.Has t
    · refine ⟨fun hstates => absurd hhas (hnew hstates.1), fun hclause => ?_⟩
      obtain ⟨_, _, hstates, -⟩ := hclause
      exact absurd hhas (hnew hstates.1)
    · exact hmeaning ▸ htally.settled (by simp) hhas
  · obtain ⟨id, hid⟩ := isSome_iff_exists.mp hbound
    have hmemo := h.memoized (d := ⟨n, id⟩) (by rw [← h.symbolOf, hid]) ⟨_, hkind, rfl⟩
    rw [State.declaredTypeOfNode?, hid, bind_some]
    exact declaredType_of_models hmemo h.pending hinsts (hdirect.plain n) hmodels
  · rw [htally.reported, hnone, List.nil_append]
  · intro t
    rw [htally.severed (by simp)]
    refine and_iff_right_iff_imp.mpr fun hsev => ?_
    obtain ⟨-, _, _, _, hstates, -⟩ := hsev
    exact hnew hstates.1

/-- A model that is asked for, or that is in a program that is asked for, has a type. -/
theorem Performs.declares {requests : List Request} {answers : List (Option TypeId)}
    {paths : List String} (hfiles : ∃ files, program.tree = ofFiles files)
    (h : Performs program.environment requests (.initial (.declaring program.tree paths)) answers s)
    {n : NodeId} {parts : ModelNode} (hkind : program.tree.kind? n = some (.modelStatement parts))
    (hbound : (program.bindings.symbolOf? n).isSome = true)
    (hasked : .program ∈ requests ∨ .node n ∈ requests) :
    ∃ t, s.declaredTypeOfNode? n = some t := by
  obtain ⟨id, hid⟩ := isSome_iff_exists.mp hbound
  have hinit : Reached program (.initial (.declaring program.tree paths)) := ⟨hfiles, _, .refl⟩
  have hreached : Reached program s := hinit.calls_trans h.calls
  have hwf := hreached.wellFormed
  rw [State.declaredTypeOfNode?, hreached.symbolOf, hid, bind_some]
  rcases hasked with hmem | hmem
  · obtain ⟨s₁, s₂, depth, answer, hbefore, hrun, hafter⟩ := h.performed hmem
    obtain ⟨_, s₃, hrun, hanswer⟩ := run_bind.mp hrun
    obtain ⟨_, hrun⟩ := run_discard.mp hrun
    obtain ⟨-, rfl⟩ := run_pure.mp hanswer
    have hexh := (checkProgram_exhausts (hinit.calls_trans hbefore) hrun).1.calls hafter
    have hsit := program.bindings_situated hreached.complete
    rcases hsit.site hid with rfl | ⟨scope, kind, i, hsite⟩ | ⟨d, outer, i, hmem, -, -⟩
    · obtain ⟨-, _, hglobal⟩ := hreached.complete.global_root
      simp [hkind] at hglobal
    · obtain rfl := mem_unique hsite.kind hkind
      exact hexh.exists_declaredType hid hsite (by simp) (by simp)
    · obtain ⟨name, hname⟩ := hwf.exists_parameter_name hmem
      simp [show program.environment.tree.kind? n = _ from hkind] at hname
  · obtain ⟨s₁, s₂, depth, answer, hbefore, hrun, hafter⟩ := h.performed hmem
    have hreached₁ : Reached program s₁ := hinit.calls_trans hbefore
    have hreached₂ : Reached program s₂ := hreached₁.calls_trans (.single ⟨_, _, _, hrun⟩)
    obtain ⟨t, hrun, -⟩ := run_bind_pure.mp hrun
    obtain ⟨_, s₄, hprep, hrun⟩ := run_bind.mp hrun
    have hopen : s₄.isInstantiating n = false := by
      by_contra hne
      exact (hreached₁.prepare_idle hprep).2 n (.inr (by simpa using hne))
    have hrems := (checkNode_meets hwf depth hopen hrun).resolve_right fun hprogress =>
      hreached₂.not_busy n (.inl hprogress)
    obtain ⟨t, ht⟩ := hrems.declared
      (by simp [isRemembered, isListed, show program.environment.tree.kind? n = _ from hkind])
      hkind (by simp) ((hreached₂.symbolOf n).trans hid)
    exact ⟨t, hreached₂.declaredType_calls (d := ⟨n, id⟩) hid ⟨_, hkind, rfl⟩ hafter ht⟩

/-- Each cycle of models that extend each other is broken once. In a program without templates and
without models that are copied, where every base is given by a reference to a model, let all models
be checked, in any order. Then there are as many reports of models that would extend themselves as
there are cycles. On each cycle one model has no base, and the report stands at its clause; every
other model extends the declared type of the model that it names. -/
theorem base_cycles_broken_once {requests : List Request} {answers : List (Option TypeId)}
    {paths : List String} (hfiles : ∃ files, program.tree = ofFiles files)
    (hrun : Performs program.environment requests (.initial (.declaring program.tree paths)) answers
      s)
    (hdirect : DirectBases program.tree s)
    (hcovered : ∀ n parts, program.tree.kind? n = some (.modelStatement parts) →
      (program.bindings.symbolOf? n).isSome = true → .program ∈ requests ∨ .node n ∈ requests) :
    (cycles (s.Inherits program.tree)).encard = s.recursions.length ∧
    (∀ C ∈ cycles (s.Inherits program.tree), ∃! n, n ∈ C ∧ s.baseOf? n = some none) ∧
    ∀ n base, s.Inherits program.tree n base →
      (∃ t, s.declaredTypeOfNode? base = some t ∧ s.baseOf? n = some (some t)) ∨
      (s.baseOf? n = some none ∧ TransGen (s.Inherits program.tree) n n ∧
        ∃ parts clause arguments, program.tree.kind? n = some (.modelStatement parts) ∧
          parts.base = some clause ∧
          diagnosticAt program.tree .recursiveBase arguments (some clause) ∈ s.recursions) := by
  have hreached : Reached program s := ⟨hfiles, paths, hrun.calls⟩
  obtain ⟨cuts, h⟩ := hreached.concluded hdirect fun {n parts} hkind hbound => by
    rw [hreached.symbolOf] at hbound
    exact hrun.declares hfiles hkind hbound (hcovered n parts hkind hbound)
  have hcuts := h.cutsBack
  refine ⟨hcuts.encard_eq.trans h.encard_severed, fun C hC => ?_, fun n base hinherits => ?_⟩
  · refine (existsUnique_congr fun n => and_congr_right fun hn => ?_).mp (hcuts.existsUnique hC)
    obtain ⟨a, ha, rfl⟩ := hC
    obtain ⟨base, hinherits, -⟩ := TransGen.head'_iff.mp (hcuts.reaches_back ha hn)
    exact h.mem_severed_iff hinherits
  · by_cases hsevered : n ∈ s.severed program.tree
    · exact .inr ⟨(h.mem_severed_iff hinherits).mp hsevered, hcuts.on_cycle hsevered,
        h.reported_of_severed hsevered⟩
    · exact .inl (h.base_of_derives hinherits (hcuts.rest hinherits hsevered))

end

/-- Whether a node of a kind has no template parameters and copies nothing, and what it extends is
given by a reference to a model. -/
def State.isDirect (s : State) (tree : Tree) (kind : NodeKind) : Bool :=
  kind.templateParameters.isEmpty &&
    match kind with
    | .modelStatement parts => parts.copied.isNone && parts.base.all fun clause =>
      match tree.kind? clause, (s.declarationOf? tree clause).bind tree.kind? with
      | some (.typeReference _ _), some (.modelStatement _) => true
      | _, _ => false
    | _ => true

/-- Direct bases can be decided. -/
theorem directBases_of_all {tree : Tree}
    (h : ∀ row ∈ tree.nodes.toList, s.isDirect tree row.2.kind = true) : DirectBases tree s := by
  have hkinds : ∀ {n kind}, tree.kind? n = some kind → s.isDirect tree kind = true := by
    intro n kind hkind
    obtain ⟨node, hnode, rfl⟩ := map_eq_some_iff.mp hkind
    exact h (n, node) (Table.mem_toList.mpr hnode)
  refine ⟨fun n => ?_, fun {n parts} hkind => ?_, fun {n clause parts} hkind hclause => ?_⟩
  · cases hkind : tree.kind? n with
    | none => simp [templateParameters, hkind]
    | some kind =>
      have hdirect := (Bool.and_eq_true_iff.mp (hkinds hkind)).1
      simpa [templateParameters, hkind] using hdirect
  · have hdirect := hkinds hkind
    simp only [State.isDirect, Bool.and_eq_true, isNone_iff_eq_none] at hdirect
    exact hdirect.2.1
  · have hdirect := hkinds hkind
    simp only [State.isDirect, Bool.and_eq_true, hclause, all_some] at hdirect
    obtain ⟨-, -, hdirect⟩ := hdirect
    split at hdirect
    next target arguments baseParts href hleads =>
      obtain ⟨base, hbase, hmodel⟩ := bind_eq_some_iff.mp hleads
      exact ⟨target, arguments, base, baseParts, href, hbase, hmodel⟩
    · simp at hdirect

/-- The sun and the moon extend each other, a star extends itself, and a comet extends the sun. -/
def orbits : Program :=
  .ofFiles .default .empty [⟨"sky", [
    .modelDecl "Comet" [] (some (.reference "Sun" [])) none [] [],
    .modelDecl "Sun" [] (some (.reference "Moon" [])) none [] [],
    .modelDecl "Moon" [] (some (.reference "Sun" [])) none [] [],
    .modelDecl "Star" [] (some (.reference "Star" [])) none [] []]⟩]

/-- There are two cycles and two reports. If the moon is checked first, then it is the moon that has
no base. -/
theorem base_cycles_broken_once_orbits : ∃ answers s,
    Performs orbits.environment [.node ⟨28⟩, .program] (.initial orbits.bindings) answers s ∧
      s.recursions.length = 2 ∧ (cycles (s.Inherits orbits.tree)).encard = 2 ∧
      s.baseOf? ⟨28⟩ = some none ∧
      ∀ C ∈ cycles (s.Inherits orbits.tree), ∃! n, n ∈ C ∧ s.baseOf? n = some none := by
  obtain ⟨answers, s, hrun, hdirect, hreports, hmoon⟩ := @exists_performs orbits.environment
    (.initial orbits.bindings) 12 [.node ⟨28⟩, .program]
    (fun outcome => (∀ row ∈ orbits.tree.nodes.toList,
      outcome.2.isDirect orbits.tree row.2.kind = true) ∧ outcome.2.recursions.length = 2 ∧
        outcome.2.baseOf? ⟨28⟩ = some none) _ (by decide +kernel)
  obtain ⟨hcycles, hbroken, -⟩ := base_cycles_broken_once ⟨_, rfl⟩ hrun
    (directBases_of_all hdirect) fun _ _ _ _ => .inl (by simp)
  exact ⟨answers, s, hrun, hreports, hcycles.trans (congrArg _ hreports), hmoon, hbroken⟩

end Checking

end ApiSchema
