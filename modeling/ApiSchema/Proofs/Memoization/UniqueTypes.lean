import ApiSchema.Proofs.Memoization.Checks

/-!
# One type for each declaration and argument list

In every state of a session there is at most one type that is built from a model or an interface
with its parameters left open, and at most one for each list of template arguments. Every reference
stands for that type, also one that is met while the type is under construction, and the declared
type never changes.
-/

namespace ApiSchema.Checking

open State Option

variable {env : Environment} {bound : Bindings} {merged : Bool} {d : Subject} {s s' : State}
  {t : TypeId} {program : Program} {arguments : List TypeId}

/-- Before anything is checked nothing is built from the declaration and nothing is found. -/
theorem Blank.memoized (h : Blank env bound merged s)
    (hbound : bound.symbolOf? d.node = some d.symbol)
    (hkind : ∃ kind, env.tree.kind? d.node = some kind ∧ kind.isInstantiable = true) :
    Memoized env.tree d s := by
  have hdecl : s.declaredType? d.symbol = none := h.declaredType d.symbol
  have hinsts : ∀ arguments, (s.linksOf d.symbol).instances.find? arguments = none := by
    intro arguments
    rw [h.instances, OrderedMap.find?_empty]
  have hlookup : ∀ arguments, s.lookup? env.tree d arguments = none := by
    intro arguments
    rw [lookup?, h.pending, OrderedMap.find?_empty, none_or, recorded?, hdecl,
      hinsts, ite_self]
  refine ⟨h.consistent, ?_, hkind, ?_, fun hfound => ?_, fun ht => ?_, fun ht => ?_, fun _ _ => ?_,
    fun hr => ?_⟩
  · rw [Bindings.symbolOf?, h.nodeSymbols]
    exact hbound
  · rintro t arguments ⟨row, template, hrow, horigin, -⟩
    have hshape : s.types.shape? t = some row.shape := by rw [TypeTable.shape?, hrow]; rfl
    rcases h.shape hshape with heq | ⟨n, heq⟩ <;> simp [heq] at horigin
  · simp [hlookup] at hfound
  · simp [hdecl] at ht
  · simp [h.pending] at ht
  · rw [hinsts, hdecl]
  · simp [h.references] at hr

/-- Checks of nodes one after the other keep one type for each argument list. -/
theorem Checked.memoized (hwf : env.tree.WellFormed) (hchk : Checked env s s')
    (h : Memoized env.tree d s) (hctx : s.context = none) : Memoized env.tree d s' := by
  induction hchk with
  | refl => exact h
  | @tail s₁ s₂ hfirst hlast ih =>
    obtain ⟨depth, node, t, hrun⟩ := hlast
    have hnone : s₁.context = none := (Checked.frame hwf hfirst).context.trans hctx
    exact (checkNode_memoizes hwf d depth).keeps ih (.outside (by simp [isInstantiating, hnone]))
      hrun

theorem Reached.memoized (h : Reached program s)
    (hbound : program.bindings.symbolOf? d.node = some d.symbol)
    (hkind : ∃ kind, program.tree.kind? d.node = some kind ∧ kind.isInstantiable = true) :
    Memoized program.environment.tree d s := by
  obtain ⟨_, merged, s₁, hblank, hchk⟩ := h.checked
  exact hchk.memoized h.wellFormed (hblank.memoized
    ((Bindings.symbolOf?_declaring _ _ _ _).trans hbound) hkind) hblank.context

/-- Between the calls of a session nothing is under construction. -/
theorem Reached.pending (h : Reached program s) : s.pending = .empty := by
  obtain ⟨_, merged, s₁, hblank, hchk⟩ := h.checked
  rw [(hchk.frame h.wellFormed).pending, hblank.pending]

/-- Rows that are built from the declaration for the same arguments are the same. -/
theorem Memoized.unique {t' : TypeId} (h : Memoized env.tree d s)
    (ht : s.types.Instantiates d.node arguments t) (ht' : s.types.Instantiates d.node arguments t') :
    t = t' := by
  obtain ⟨own, hown, hfound⟩ := h.rows ht
  obtain ⟨own', hown', hfound'⟩ := h.rows ht'
  obtain rfl := mem_unique hown hown'
  exact mem_unique hfound hfound'

theorem Memoized.instantiates_of_lookup (h : Memoized env.tree d s)
    (ht : s.lookup? env.tree d arguments = some t) :
    s.types.Instantiates d.node
      (if s.openKey? env.tree d.node = some arguments then [] else arguments) t := by
  obtain ⟨own, hown, -, hrow⟩ := h.entries ht
  by_cases heq : arguments = own
  · rw [if_pos heq] at hrow
    rwa [if_pos (heq ▸ hown)]
  · rw [if_neg heq] at hrow
    rwa [if_neg fun hsame => heq (Option.some.inj (hsame.symm.trans hown))]

/-- The declared type stays the same in all later calls. -/
theorem Reached.declaredType_calls (h : Reached program s)
    (hbound : program.bindings.symbolOf? d.node = some d.symbol)
    (hkind : ∃ kind, program.tree.kind? d.node = some kind ∧ kind.isInstantiable = true)
    (hcalls : Relation.ReflTransGen (Call program) s s')
    (ht : s.declaredType? d.symbol = some t) : s'.declaredType? d.symbol = some t := by
  have hwf := h.wellFormed
  have hs := h.memoized hbound hkind
  have hreached := h.calls_trans hcalls
  have hs' := hreached.memoized hbound hkind
  have hinit : s.initialized = true := by
    obtain ⟨paths, rfl | ⟨s₁, hprep, hchk⟩⟩ := h.prepares
    · simp [declaredType?, (h.blank paths).declaredType] at ht
    · exact (hchk.frame hwf).initialized.trans ((h.blank paths).prepare hwf hprep).initialized
  have hframe := (checked_of_calls hwf hinit hcalls).frame hwf
  have hkey : ∀ {own}, s.openKey? program.environment.tree d.node = some own →
      s'.openKey? program.environment.tree d.node = some own :=
    openKey?_mono hframe.parameters
  obtain ⟨own, hown, hfound⟩ := hs.lookup_of_declared ht
  have hfound' := hs.lookup_mono hs' hframe.grows hkey hfound
  rwa [lookup?, hreached.pending, OrderedMap.find?_empty, none_or, recorded?,
    if_pos (hkey hown)] at hfound'

/-- In every state of a session, for every bound model or interface: there is at most one type that
is built from it for given template arguments, none of them if its parameters are left open; every
reference to it stands for the type that is built for its arguments, or for the one with open
parameters if these are the arguments; the declared type is the one with open parameters and stays
the same in all later calls. -/
theorem instantiations_unique {program : Program} (h : Reached program s) {declaration : NodeId}
    {symbol : SymbolId} {kind : NodeKind}
    (hbound : program.bindings.symbolOf? declaration = some symbol)
    (hkind : program.tree.kind? declaration = some kind)
    (hinstantiable : kind.isInstantiable = true) :
    (∀ {arguments : List TypeId} {t t' : TypeId}, s.types.Instantiates declaration arguments t →
      s.types.Instantiates declaration arguments t' → t = t') ∧
    (∀ r ∈ s.references, r.declaration = declaration → s.types.Instantiates declaration
      (if s.openKey? program.tree declaration = some r.arguments then [] else r.arguments)
      r.type) ∧
    ∀ {t : TypeId}, s.declaredType? symbol = some t → s.types.Instantiates declaration [] t ∧
      ∀ {s' : State}, Relation.ReflTransGen (Call program) s s' →
        s'.declaredType? symbol = some t := by
  have hmemoized := h.memoized (d := ⟨declaration, symbol⟩) hbound ⟨kind, hkind, hinstantiable⟩
  refine ⟨hmemoized.unique, fun r hr hdeclaration => ?_, fun {t} ht => ⟨?_, fun {s'} hcalls => ?_⟩⟩
  · exact hmemoized.instantiates_of_lookup (hmemoized.references hr hdeclaration)
  · obtain ⟨own, hown, hfound⟩ := hmemoized.lookup_of_declared ht
    have hrow := hmemoized.instantiates_of_lookup hfound
    rwa [if_pos hown] at hrow
  · exact h.declaredType_calls (d := ⟨declaration, symbol⟩) hbound ⟨kind, hkind, hinstantiable⟩
      hcalls ht

/-- Links of a chain that point to the next link and to a link with a label, and a chain of texts:
`model Link<T> { value: T, next: Link<T>, label: Link<string> }` and
`model Chain { first: Link<string> }`. -/
def chains : Program :=
  .ofFiles .default .empty [⟨"chain", [
    .modelDecl "Link" ["T"] none none [.required "value" "T",
      .property "next" false (.reference "Link" [.reference "T" []]) none [],
      .property "label" false (.reference "Link" [.reference "string" []]) none []] [],
    .model "Chain" [.property "first" false (.reference "Link" [.reference "string" []]) none []]]⟩]

/-- The first link of a chain is the one link with a text. The next link in the declaration, whose
argument is the parameter, is the declared link itself. -/
theorem instantiations_unique_chains :
    ∃ s, Reached chains s ∧ chains.bindings.symbolOf? ⟨34⟩ = some ⟨20⟩ ∧
      (⟨⟨38⟩, ⟨34⟩, [⟨6⟩], ⟨7⟩⟩ : Reference) ∈ s.references ∧
      (⟨⟨27⟩, ⟨34⟩, [⟨2⟩], ⟨3⟩⟩ : Reference) ∈ s.references ∧
      (∀ t, s.types.Instantiates ⟨34⟩ [⟨6⟩] t ↔ t = ⟨7⟩) ∧
      (∀ t, s.types.Instantiates ⟨34⟩ [] t ↔ t = ⟨3⟩) ∧
      s.declaredType? ⟨20⟩ = some ⟨3⟩ := by
  have hbound : chains.bindings.symbolOf? ⟨34⟩ = some ⟨20⟩ := by decide +kernel
  obtain ⟨kind, hkind, hinstantiable⟩ := (any_eq_true NodeKind.isInstantiable
    (chains.tree.kind? ⟨34⟩)).mp (by decide +kernel)
  obtain ⟨answer, s, hrun, hfirst, hnext, hkey, hdeclared⟩ := @exists_run chains 12
    (fun s => (⟨⟨38⟩, ⟨34⟩, [⟨6⟩], ⟨7⟩⟩ : Reference) ∈ s.references ∧
      (⟨⟨27⟩, ⟨34⟩, [⟨2⟩], ⟨3⟩⟩ : Reference) ∈ s.references ∧
      s.openKey? chains.tree ⟨34⟩ = some [⟨2⟩] ∧ s.declaredType? ⟨20⟩ = some ⟨3⟩) _
    (by decide +kernel)
  have hreached : Reached chains s := .of_run hrun
  obtain ⟨hunique, hreferences, -⟩ := instantiations_unique hreached hbound hkind hinstantiable
  have hseven := hreferences _ hfirst rfl
  have hthree := hreferences _ hnext rfl
  rw [if_neg (by rw [hkey]; decide)] at hseven
  rw [if_pos hkey] at hthree
  exact ⟨s, hreached, hbound, hfirst, hnext,
    fun t => ⟨fun ht => hunique ht hseven, fun ht => ht ▸ hseven⟩,
    fun t => ⟨fun ht => hunique ht hthree, fun ht => ht ▸ hthree⟩, hdeclared⟩

end ApiSchema.Checking
