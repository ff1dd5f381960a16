import ApiSchema.Proofs.Models.Intersections

/-!
# Unions are flat

A union lists the options of the unions among its operands in their place. No option of a union is a
union then, in all states that a session passes through, and the options are those of the leaves of
the expression, from left to right, however unions are nested in it and whatever its references
stand for.
-/

namespace ApiSchema

open TypeTable List

/-- The leaves of an expression: itself, unless it is a union, and otherwise those of its
operands. -/
def Tree.unionLeaves (tree : Tree) : Nat → NodeId → List NodeId
  | 0, node => [node]
  | depth + 1, node =>
    match tree.kind? node with
    | some (.unionExpression operands) => operands.flatMap (tree.unionLeaves depth)
    | _ => [node]

namespace Checking

variable {env : Environment} {program : Program} {s s' s₁ : State} {node : NodeId} {t : TypeId}
  {operands : List NodeId} {ts : List TypeId}

/-- An expression that is no union was checked between two states, and came to a type. -/
structure LeafType (env : Environment) (s s' : State) (leaf : NodeId) (u : TypeId) : Prop where
  noUnion : ∀ operands, env.tree.kind? leaf ≠ some (.unionExpression operands)
  found : ∃ depth s₁ s₂, Checked env s s₁ ∧ checkNode depth leaf env s₁ = some (u, s₂) ∧
    s₂.types.Has u ∧ s₂.types.Grows s'.types

theorem LeafType.between {leaf : NodeId} {u : TypeId} {r r' : State}
    (h : LeafType env s s' leaf u) (hbefore : Checked env r s) (hafter : s'.types.Grows r'.types) :
    LeafType env r r' leaf u := by
  obtain ⟨depth, s₁, s₂, hchk, hrun, hhas, hgrows⟩ := h.found
  exact ⟨h.noUnion, depth, s₁, s₂, hbefore.trans hchk, hrun, hhas, hgrows.trans hafter⟩

theorem LeafType.flatMap_optionsOf {leaves : List NodeId} {us : List TypeId} {types : TypeTable}
    (h : List.Forall₂ (LeafType env s s') leaves us) (hgrows : s'.types.Grows types) :
    us.flatMap types.optionsOf = us.flatMap s'.types.optionsOf := by
  induction h with
  | nil => rfl
  | cons hleaf _ ih =>
    obtain ⟨-, -, s₂, -, -, hhas, hgrows₂⟩ := hleaf.found
    rw [flatMap_cons, flatMap_cons, ih, optionsOf,
      hgrows.union (hgrows₂.has hhas)]
    rfl

section

variable (hwf : env.tree.WellFormed)

include hwf

/-- If the operands of a union come to the options of their leaves, so do all of them together. -/
theorem operands_leaves {depth : Nat}
    (ih : ∀ {n s s' t}, s.Coherent → checkNode depth n env s = some (t, s') →
      ∃ us, List.Forall₂ (LeafType env s s') (env.tree.unionLeaves depth n) us ∧
        s'.types.optionsOf t = us.flatMap s'.types.optionsOf)
    (h : s.Coherent) (hrun : operands.mapM (checkNode depth) env s = some (ts, s')) :
    ∃ us, List.Forall₂ (LeafType env s s') (operands.flatMap (env.tree.unionLeaves depth)) us ∧
      ts.flatMap s'.types.optionsOf = us.flatMap s'.types.optionsOf := by
  induction operands generalizing s ts with
  | nil =>
    obtain ⟨rfl, rfl⟩ := run_mapM_nil.mp hrun
    exact ⟨[], .nil, rfl⟩
  | cons n operands ihs =>
    obtain ⟨t, s₁, rest, hfirst, hrest, rfl⟩ := run_mapM_cons.mp hrun
    obtain ⟨h₁, ht⟩ := checkNode_grounded hwf depth h hfirst
    obtain ⟨hchk, -⟩ := checkOperands_checked hwf h₁ hrest
    have hgrows := (hchk.frame hwf).grows
    obtain ⟨us, hleaves, heq⟩ := ih h hfirst
    obtain ⟨us', hleaves', heq'⟩ := ihs h₁ hrest
    refine ⟨us ++ us', rel_append (hleaves.imp fun _ _ hleaf => hleaf.between .refl hgrows)
      (hleaves'.imp fun _ _ hleaf => hleaf.between (.single ⟨depth, n, t, hfirst⟩) (.refl _)), ?_⟩
    rw [flatMap_cons, flatMap_append, heq', LeafType.flatMap_optionsOf hleaves hgrows,
      ← heq, optionsOf, hgrows.union ht]
    rfl

/-- The check of a union expression adds a type whose options are those of its operands. -/
theorem checkNode_union {depth : Nat} (h : s.Coherent)
    (hkind : env.tree.kind? node = some (.unionExpression operands))
    (hrun : checkNode (depth + 1) node env s = some (t, s')) :
    ∃ ts s₁, operands.mapM (checkNode depth) env s = some (ts, s₁) ∧
      s₁.types.Grows s'.types ∧ s'.types.union? t = some (ts.flatMap s₁.types.optionsOf) ∧
      ts.flatMap s₁.types.optionsOf = ts.flatMap s'.types.optionsOf := by
  simp only [checkNode, checkStep, getTree_bind, hkind, checkUnion] at hrun
  obtain ⟨lists, s₁, hoptions, hadd⟩ := run_bind.mp hrun
  obtain ⟨rfl, rfl⟩ := run_addType.mp hadd
  obtain ⟨-, -, ts, hoperands, hhas, heq⟩ := checkOptions_grounded (checkNode_framed hwf depth)
    (checkNode_grounded hwf depth) h hoptions
  have hgrows : s₁.types.Grows (s₁.addRow ⟨some node, .union lists.flatten⟩).types := .push _ _
  refine ⟨ts, s₁, hoperands, hgrows, ?_, ?_⟩
  · rw [← heq]
    exact union?_eq_some_iff.mpr (shape?_push_nextId _)
  · exact flatMap_congr fun u hu => by
      rw [optionsOf, optionsOf, hgrows.union (hhas u hu)]

/-- Whatever the check of an expression comes to has the options of its leaves. -/
theorem checkNode_leaves (depth : Nat) (h : s.Coherent)
    (hrun : checkNode depth node env s = some (t, s')) :
    ∃ us, List.Forall₂ (LeafType env s s') (env.tree.unionLeaves depth node) us ∧
      s'.types.optionsOf t = us.flatMap s'.types.optionsOf := by
  induction depth generalizing node s s' t with
  | zero => exact absurd hrun run_checkNode_zero
  | succ depth ih =>
    by_cases hunion : ∃ operands, env.tree.kind? node = some (.unionExpression operands)
    · obtain ⟨operands, hkind⟩ := hunion
      obtain ⟨ts, s₁, hoperands, hgrows, ht, -⟩ := checkNode_union hwf h hkind hrun
      obtain ⟨us, hleaves, heq⟩ := operands_leaves hwf ih h hoperands
      refine ⟨us, ?_, ?_⟩
      · simp only [Tree.unionLeaves, hkind]
        exact hleaves.imp fun _ _ hleaf => hleaf.between .refl hgrows
      · rw [LeafType.flatMap_optionsOf hleaves hgrows, ← heq, optionsOf, ht]
        rfl
    · have hleaf : env.tree.unionLeaves (depth + 1) node = [node] := by
        rw [Tree.unionLeaves]
        split
        next hkind => exact absurd ⟨_, hkind⟩ hunion
        · rfl
      obtain ⟨-, ht⟩ := checkNode_grounded hwf _ h hrun
      refine ⟨[t], hleaf ▸ .cons ⟨fun operands hkind => hunion ⟨operands, hkind⟩, depth + 1, s, s',
        .refl, hrun, ht, .refl _⟩ .nil, by simp⟩

end

/-- Unions are flat. In every state that a session passes through no option of a union is a union.
The check of a union expression comes to a type whose options are those of the types of its operands
one after the other, where a type that is no union is its only option; and they are the options of
the types of its leaves, from left to right. -/
theorem unions_flat (h : Passed program (fun _ => tooDeep) s) : s.types.Flat ∧
    ∀ (node : NodeId) (operands : List NodeId) (depth : Nat) (t : TypeId) (s' : State),
      program.tree.kind? node = some (.unionExpression operands) →
      checkNode (depth + 1) node program.environment s = some (t, s') →
      s'.types.Flat ∧
      (∃ ts s₁, operands.mapM (checkNode depth) program.environment s = some (ts, s₁) ∧
        s'.types.union? t = some (ts.flatMap s'.types.optionsOf)) ∧
      ∃ us, List.Forall₂ (LeafType program.environment s s')
          (program.tree.unionLeaves (depth + 1) node) us ∧
        s'.types.union? t = some (us.flatMap s'.types.optionsOf) := by
  have hwf := h.wellFormed
  obtain ⟨hs, -⟩ := h.sound
  refine ⟨hs.types.flat, fun node operands depth t s' hkind hrun => ?_⟩
  obtain ⟨ts, s₁, hoperands, -, ht, heq⟩ := checkNode_union hwf hs hkind hrun
  obtain ⟨us, hleaves, hus⟩ := checkNode_leaves hwf _ hs hrun
  refine ⟨(checkNode_grounded hwf _ hs hrun).1.types.flat, ⟨ts, s₁, hoperands, heq ▸ ht⟩, us, hleaves, ?_⟩
  rw [← hus, optionsOf, ht]
  rfl

/-- Paints are `Warm | ("blue" | "red")`, where `Warm` stands for `"red" | "pink"`. -/
def paints : Program :=
  .ofFiles .default .empty [⟨"paints", [
    .aliasDecl "Warm" [] (.union [.string "red", .string "pink"]),
    .aliasDecl "Paint" [] (.union [.reference "Warm" [], .union [.string "blue", .string "red"]])]⟩]

/-- Red stands twice among the options, which are those of the alias and of the two texts. -/
theorem unions_flat_paints :
    ∃ s t s', Reached paints s ∧ checkNode 9 ⟨29⟩ paints.environment s = some (t, s') ∧
      s'.types.Flat ∧ s'.types.union? t = some [⟨2⟩, ⟨3⟩, ⟨5⟩, ⟨2⟩] ∧
      ∃ us, List.Forall₂ (LeafType paints.environment s s') [⟨25⟩, ⟨26⟩, ⟨27⟩] us ∧
        us.flatMap s'.types.optionsOf = [⟨2⟩, ⟨3⟩, ⟨5⟩, ⟨2⟩] := by
  obtain ⟨answer, s, hrun, hevaluated⟩ := @exists_run paints 12
    (fun s => (checkNode 9 ⟨29⟩ paints.environment s).any (fun outcome =>
      outcome.2.types.union? outcome.1 = some [⟨2⟩, ⟨3⟩, ⟨5⟩, ⟨2⟩]) = true) _ (by decide +kernel)
  obtain ⟨⟨t, s'⟩, hchecked, hoptions⟩ := (Option.any_eq_true _ _).mp hevaluated
  have ht : s'.types.union? t = some [⟨2⟩, ⟨3⟩, ⟨5⟩, ⟨2⟩] := of_decide_eq_true hoptions
  have hreached : Reached paints s := .of_run hrun
  have hkind : paints.tree.kind? ⟨29⟩ = some (.unionExpression [⟨25⟩, ⟨28⟩]) := by decide +kernel
  obtain ⟨-, hunions⟩ := unions_flat (.between hreached)
  obtain ⟨hflat, -, us, hleaves, hus⟩ := hunions ⟨29⟩ _ 8 t s' hkind hchecked
  have hnodes : paints.tree.unionLeaves 9 ⟨29⟩ = [⟨25⟩, ⟨26⟩, ⟨27⟩] := by decide +kernel
  exact ⟨s, t, s', hreached, hchecked, hflat, ht, us, hnodes ▸ hleaves,
    Option.some.inj (hus.symm.trans ht)⟩

end Checking

end ApiSchema
