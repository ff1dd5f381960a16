import ApiSchema.Proofs.Hygiene.Checks

/-!
# Open parameters stay in their templates

The type of a template parameter that is left open can be reached from an instance of a template
only if the instance was asked for with an argument that reaches it. From the declared type of
something without template parameters no open parameter can be reached at all.
-/

namespace ApiSchema.Checking

open TypeTable TypeShape Option

variable {env : Environment} {bound : Bindings} {merged : Bool} {final : TypeTable}
  {parameter : NodeId} {good : TypeId → Prop} {s s' : State} {program : Program}

/-- Before anything is checked, all types are good. -/
theorem Blank.hygienic (h : Blank env bound merged s) (hgrows : s.types.Grows final) :
    Hygienic env final parameter s.types.Has s where
  consistent := h.consistent
  clear hid _ := hid
  hole := fun {id} ⟨row, hrow⟩ => not_isHole_of_grows hgrows hrow fun hshape => by
    have hid : s.types.shape? id = some .templateParameter := by
      rw [shape?, hrow, map_some, hshape]
    rcases h.shape hid with heq | ⟨n, heq⟩ <;> simp at heq
  links := fun ⟨shape, hshape, hmem⟩ => by
    rcases h.shape hshape with rfl | ⟨n, rfl⟩ <;> simp [TypeShape.links] at hmem
  origin hshape horigin := by
    rcases h.shape hshape with rfl | ⟨n, rfl⟩ <;> simp at horigin
  error := ⟨⟨_, h.error⟩, _, h.error⟩
  parameters hp := by simp [h.parameterTypes] at hp
  literals hl := by simp [h.literalTypes] at hl
  namespaces hs := by
    obtain ⟨n, hn⟩ := h.namespaceType hs
    exact ⟨has_of_shape hn, has_of_shape hn⟩
  declared hs := by simp [State.declaredType?, h.declaredType] at hs
  instances hs := by simp [h.instances] at hs
  pending hp := by simp [h.pending] at hp
  descending := fun hshape other hother => by
    rcases h.shape hshape with rfl | ⟨n, rfl⟩ <;> simp [mentions] at hother
  attempts ha := by simp [h.attempts] at ha

/-- Checks of nodes one after the other keep the invariant. -/
theorem Checked.hygienic (hc : env.tree.Complete) (hchk : Checked env s s')
    (h : Hygienic env final parameter good s) (hctx : s.context = none)
    (hgrows : s'.types.Grows final) : ∃ good', Hygienic env final parameter good' s' := by
  induction hchk using Relation.ReflTransGen.head_induction_on generalizing good with
  | refl => exact ⟨good, h⟩
  | @head s s₁ hfirst hrest ih =>
    obtain ⟨depth, node, t, hrun⟩ := hfirst
    have hframe := (checkNode_framed hc.toWellFormed depth).frame hrun
    have hlater : Frame none s₁ s' := Checked.frame hc.toWellFormed hrest
    obtain ⟨good₁, -, h₁, -⟩ := (checkNode_hygienics hc depth).yields h
      ⟨by simp [hctx], by simp [hctx]⟩ hrun (hlater.grows.trans hgrows)
    exact ih h₁ (hframe.context.trans hctx)

/-- What is reached from a good type is good. -/
theorem Hygienic.reaches (h : Hygienic env final parameter good s) {id other : TypeId}
    (hreach : s.types.Reaches id other) (hgood : good id) : good other := by
  induction hreach with
  | refl => exact hgood
  | tail _ hlast ih => exact (h.links hlast).2 ih

/-- An open parameter has one type. -/
theorem Reached.parameterTypes (h : Reached program s) {t : TypeId} {node : Option NodeId}
    (ht : s.types.get? t = some ⟨node, .templateParameter⟩) :
    ∃ p, node = some p ∧ s.parameterTypes.find? p = some t := by
  obtain ⟨_, merged, s₁, hblank, hchk⟩ := h.checked
  have hframe : Frame none s₁ s := hchk.frame h.wellFormed
  refine (hframe.newParameters ht).resolve_left fun ⟨row, hrow⟩ => ?_
  have hshape : s₁.types.shape? t = some row.shape := by rw [shape?, hrow]; rfl
  obtain ⟨shape, hrow', hgrown⟩ := hframe.grows.row hrow
  rw [ht, some.injEq, TypeRecord.mk.injEq] at hrow'
  obtain ⟨-, rfl⟩ := hrow'
  rcases hblank.shape hshape with heq | ⟨n, heq⟩ <;> rw [heq] at hgrown <;> cases hgrown

/-- An open parameter is good for nothing but what must not reach it. -/
theorem Reached.hygienic (h : Reached program s) (parameter : NodeId) :
    ∃ good, Hygienic program.environment s.types parameter good s := by
  obtain ⟨_, merged, s₁, hblank, hchk⟩ := h.checked
  have hframe : Frame none s₁ s := hchk.frame h.wellFormed
  exact hchk.hygienic h.complete (hblank.hygienic hframe.grows) hblank.context (.refl _)

/-- The types can be told apart into good ones and others, so that the open parameter is not good
and is reached from all the others. -/
theorem Reached.separated (h : Reached program s) {hole : TypeId}
    (hhole : s.types.shape? hole = some .templateParameter) :
    ∃ p good, Hygienic program.environment s.types p good s ∧ ¬ good hole ∧
      ∀ {a : TypeId}, s.types.Has a → ¬ good a → s.types.Reaches a hole := by
  obtain ⟨⟨node, shape⟩, hrow, rfl⟩ := map_eq_some_iff.mp hhole
  obtain ⟨p, rfl, hp⟩ := h.parameterTypes hrow
  obtain ⟨good, hygienic⟩ := h.hygienic p
  refine ⟨p, good, hygienic, fun hgood => hygienic.hole hgood hrow, fun {a} hhas hbad => ?_⟩
  by_contra hnone
  refine hbad (hygienic.clear hhas fun other hother hisHole => hnone ?_)
  -- The types that stand for the parameter are all the same one.
  obtain ⟨q, hq, hfind⟩ := h.parameterTypes hisHole
  cases hq
  rw [hp, some.injEq] at hfind
  exact hfind ▸ hother

/-- In every state of a session, an open parameter that is reached from an instance of a template is
reached from one of the arguments of the instance, and none is reached from the declared type of
what has no template parameters. -/
theorem openParameter_of_reaches {program : Program} (h : Reached program s) {hole : TypeId}
    (hhole : s.types.shape? hole = some .templateParameter) :
    (∀ {t : TypeId} {shape : TypeShape} {arguments : List TypeId} {template : Option NodeId},
      s.types.shape? t = some shape → shape.origin? = some (arguments, template) →
      arguments ≠ [] → s.types.Reaches t hole → ∃ a ∈ arguments, s.types.Reaches a hole) ∧
    ∀ {n : NodeId} {t : TypeId}, program.tree.templateParameters n = [] →
      s.declaredTypeOfNode? n = some t → ¬ s.types.Reaches t hole := by
  obtain ⟨p, good, hygienic, hbad, hreached⟩ := h.separated hhole
  refine ⟨fun {t shape arguments template} ht horigin hne hreaches => ?_,
    fun {n t} hparameters hdeclared hreaches => ?_⟩
  · by_contra hnone
    refine hbad (hygienic.reaches hreaches (hygienic.origin ht horigin hne fun a ha => ?_))
    obtain ⟨hhas, -⟩ := hygienic.links ⟨shape, ht, arguments_subset_links horigin ha⟩
    exact by_contra fun hgood => hnone ⟨a, ha, hreached hhas hgood⟩
  · obtain ⟨symbol, hsymbol, htype⟩ := bind_eq_some_iff.mp hdeclared
    obtain ⟨-, hgood⟩ := hygienic.declared htype
    have hempty : p ∉ program.environment.tree.templateParameters n := by
      rw [show program.environment.tree = program.tree from rfl, hparameters]
      exact List.not_mem_nil
    exact hbad (hygienic.reaches hreaches (hgood n hsymbol hempty))

/-- A box for anything, a shelf with boxes, and a store with a shelf of its own kind:
`model Box<T> { value: T }`, `model Shelf<U> { box: Box<U> }` and
`model Store { shelf: Shelf<Store> }`. -/
def stores : Program :=
  .ofFiles .default .empty [⟨"store", [
    .modelDecl "Box" ["T"] none none [.required "value" "T"] [],
    .modelDecl "Shelf" ["U"] none none
      [.property "box" false (.reference "Box" [.reference "U" []]) none []] [],
    .model "Store" [.property "shelf" false (.reference "Shelf" [.reference "Store" []]) none []]]⟩]

/-- The box on a shelf for anything reaches the open parameter of the shelf, which is its argument;
the store, whose shelf is for stores, does not. -/
theorem openParameter_of_reaches_stores :
    ∃ s, Reached stores s ∧ s.types.shape? ⟨5⟩ = some .templateParameter ∧
      (s.types.shape? ⟨7⟩).bind origin? = some ([⟨5⟩], some ⟨24⟩) ∧
      s.types.Reaches ⟨7⟩ ⟨5⟩ ∧ (∃ a ∈ [(⟨5⟩ : TypeId)], s.types.Reaches a ⟨5⟩) ∧
      stores.tree.templateParameters ⟨37⟩ = [] ∧ s.declaredTypeOfNode? ⟨37⟩ = some ⟨10⟩ ∧
      ¬ s.types.Reaches ⟨10⟩ ⟨5⟩ := by
  have hparameters : stores.tree.templateParameters ⟨37⟩ = [] := by decide +kernel
  obtain ⟨answer, s, hrun, hhole, hbox, hstore⟩ := @exists_run stores 12
    (fun s => s.types.shape? ⟨5⟩ = some .templateParameter ∧
      (s.types.shape? ⟨7⟩).bind origin? = some ([⟨5⟩], some ⟨24⟩) ∧
      s.declaredTypeOfNode? ⟨37⟩ = some ⟨10⟩) _ (by decide +kernel)
  obtain ⟨shape, hshape, horigin⟩ := bind_eq_some_iff.mp hbox
  have hreached : Reached stores s := .of_run hrun
  have hreaches : s.types.Reaches ⟨7⟩ ⟨5⟩ :=
    .single ⟨shape, hshape, arguments_subset_links horigin (.head _)⟩
  obtain ⟨hinstance, hdeclared⟩ := openParameter_of_reaches hreached hhole
  exact ⟨s, hreached, hhole, hbox, hreaches, hinstance hshape horigin (by simp) hreaches, hparameters,
    hstore, hdeclared hparameters hstore⟩

end ApiSchema.Checking
