import ApiSchema.Proofs.Checking.Probing
import ApiSchema.Proofs.Types.Openness

/-!
# Names of types come to an end

The name of a type is put together from the names of other types: of its template arguments, its
parts, the interface or enum it belongs to and the namespaces around it. Models may refer to each
other in circles, and a template may need ever more instances of itself, but a name is made of older
types only, in every state that a session passes through. So the searches that go along names never
go deeper than a type is old, whatever they would find further down.
-/

namespace ApiSchema

open TypeTable List

variable {depth : Nat} {id : TypeId}

section

variable {α β : Type} {step : (α → β) → α → β} {m : α → Nat}

/-- A recursion where the calls that are nested more deeply than `depth` are left to another
function. -/
def unrolled (step : (α → β) → α → β) (deeper : α → β) : Nat → α → β
  | 0 => deeper
  | depth + 1 => step (unrolled step deeper depth)

/-- What is defined by its steps is such a recursion. -/
theorem eq_unrolled {deeper : α → β} {f : Nat → α → β} (hzero : f 0 = deeper)
    (hsucc : ∀ depth, f (depth + 1) = step (f depth)) (depth : Nat) :
    f depth = unrolled step deeper depth := by
  induction depth with
  | zero => exact hzero
  | succ depth ih => rw [hsucc, unrolled, ih]

/-- If all calls lower a measure, then none is nested more deeply than the measure tells. -/
theorem unrolled_eq (hstep : ∀ f g a, (∀ b, m b < m a → f b = g b) → step f a = step g a)
    {deeper deeper' : α → β} {depth' : Nat} {a : α} (h : m a < depth) (h' : m a < depth') :
    unrolled step deeper depth a = unrolled step deeper' depth' a := by
  induction depth generalizing depth' a with
  | zero => exact absurd h (Nat.not_lt_zero _)
  | succ depth ih =>
    cases depth' with
    | zero => exact absurd h' (Nat.not_lt_zero _)
    | succ depth' =>
      exact hstep _ _ a fun b hb => ih (by omega) (by omega)

end

namespace TypeTable

variable {types : TypeTable} {tree : Tree}

/-! ### What they call for -/

/-- Nothing but the names of its parts matters for the name of a type. -/
theorem displayStep_congr {f g : TypeId → String}
    (hfg : ∀ shape, types.shape? id = some shape → ∀ part ∈ shape.nameParts, f part = g part) :
    types.displayStep tree f id = types.displayStep tree g id := by
  rw [displayStep, displayStep]
  cases hshape : types.shape? id with
  | none => rfl
  | some shape =>
    have hsame := hfg shape hshape
    have hmap : ∀ parts ⊆ shape.nameParts, parts.map f = parts.map g := fun parts hparts =>
      map_congr_left fun part hpart => hsame part (hparts hpart)
    cases shape with
    | model m => simp only [hmap m.templateArguments (subset_append_left _ _)]
    | interfaceType i => simp only [hmap i.templateArguments (subset_append_left _ _)]
    | operation o =>
      cases hiface : o.interface with
      | none => simp only [hiface]
      | some interface =>
        simp only [hiface, hsame interface (by simp [TypeShape.nameParts, hiface])]
    | enumMember m => simp only [hsame m.enumType (.head _)]
    | union options => simp only [hmap options (List.Subset.refl _)]
    | array element => simp only [hsame element (.head _)]
    | tuple values => simp only [hmap values (List.Subset.refl _)]
    | _ => rfl

/-- A parameter is looked for in parts of the name only. -/
theorem isOpenStep_congr {f g : TypeId → Bool}
    (hfg : ∀ shape, types.shape? id = some shape → ∀ part ∈ shape.nameParts, f part = g part) :
    types.isOpenStep f id = types.isOpenStep g id := by
  rw [isOpenStep, isOpenStep]
  cases hshape : types.shape? id with
  | none => rfl
  | some shape =>
    have hsame := hfg shape hshape
    have hany : ∀ parts ⊆ shape.nameParts, parts.any f = parts.any g := fun parts hparts => by
      rw [Bool.eq_iff_iff, any_eq_true, any_eq_true]
      exact exists_congr fun part => and_congr_right fun hpart => by rw [hsame part (hparts hpart)]
    cases shape with
    | model m => exact hany m.templateArguments (subset_append_left _ _)
    | interfaceType i => exact hany i.templateArguments (subset_append_left _ _)
    | array element => exact hsame element (.head _)
    | tuple values => exact hany values (List.Subset.refl _)
    | union options => exact hany options (List.Subset.refl _)
    | _ => rfl

theorem namespace?_eq_some_iff {n : NamespaceType} :
    types.namespace? id = some n ↔ types.shape? id = some (.namespaceType n) := by
  rw [namespace?]
  split <;> simp_all

/-- The path of a namespace depends on that of the one around it. -/
theorem namespaceNamesStep_congr {f g : Option TypeId → List String}
    (hfg : ∀ n, types.shape? id = some (.namespaceType n) →
      f n.parentNamespace = g n.parentNamespace) :
    types.namespaceNamesStep f (some id) = types.namespaceNamesStep g (some id) := by
  rw [namespaceNamesStep, namespaceNamesStep]
  cases hn : types.namespace? id with
  | none => rfl
  | some n => simp only [hfg n (namespace?_eq_some_iff.mp hn)]

/-! ### They come to an end -/

section

variable (h : types.Layered)

include h

/-- A search along names goes no deeper than a type is old. -/
theorem Layered.unrolled_eq {β : Type} {step : (TypeId → β) → TypeId → β}
    (hstep : ∀ f g id, (∀ shape, types.shape? id = some shape →
      ∀ part ∈ shape.nameParts, f part = g part) → step f id = step g id)
    (deeper deeper' : TypeId → β) (hdepth : id.index < depth) :
    unrolled step deeper depth id = unrolled step deeper' (types.size + 1) id := by
  refine ApiSchema.unrolled_eq (m := fun id => min id.index types.size)
    (fun f g id hfg => hstep f g id fun shape hshape part hpart => hfg part ?_) ?_ ?_
  · have hlt := h id shape hshape part hpart
    have hsize := has_iff.mp (has_of_shape hshape)
    omega
  · omega
  · omega

/-- So does the search along namespaces. -/
theorem Layered.unrolled_namespaces (deeper deeper' : Option TypeId → List String)
    (hdepth : id.index + 1 < depth) :
    unrolled types.namespaceNamesStep deeper depth (some id) =
      unrolled types.namespaceNamesStep deeper' (types.size + 1) (some id) := by
  refine ApiSchema.unrolled_eq (m := fun place =>
    place.elim 0 fun id => if id.index < types.size then id.index + 1 else 0)
    (fun f g place hfg => ?_) ?_ ?_
  · cases place with
    | none => rfl
    | some id =>
      refine namespaceNamesStep_congr fun n hn => hfg _ ?_
      have hsize := has_iff.mp (has_of_shape hn)
      cases hpar : n.parentNamespace with
      | none => simp [hsize]
      | some parent =>
        have hlt := h id _ hn parent (by simp [TypeShape.nameParts, hpar])
        have hparentSize := Nat.lt_trans hlt hsize
        simpa [hsize, hparentSize] using hlt
  · rw [Option.elim_some]
    split <;> omega
  · rw [Option.elim_some]
    split <;> omega

end

end TypeTable

namespace Checking

variable {s : State} {types : TypeTable}

/-- In every state that a session passes through, and in those before it, the name of a type is made
of older types. So the names of all types, the paths of all namespaces and the search for open
parameters come to an end: they do not depend on what is answered to calls that are nested more
deeply than a type is old. -/
theorem naming_terminates {program : Program} {deeper : Check}
    (hframed : Framed program.environment deeper) (hgrounded : Grounded program.environment deeper)
    (h : Passed program deeper s) (hgrows : types.Grows s.types) :
    (∀ id shape, types.shape? id = some shape → ∀ part ∈ shape.nameParts, part.index < id.index) ∧
    (∀ id names depth, id.index < depth →
      unrolled (types.displayStep program.tree) names depth id = types.display program.tree id) ∧
    (∀ id isOpen depth, id.index < depth →
      unrolled types.isOpenStep isOpen depth id = types.isOpen id) ∧
    ∀ id paths depth, id.index + 1 < depth →
      DottedPath.join (unrolled types.namespaceNamesStep paths depth (some id)).reverse =
        types.namespacePath (some id) := by
  have hlayered : types.Layered :=
    (h.coherent hframed hgrounded).types.layered.before hgrows.keepsNames
  refine ⟨hlayered, fun id names depth hdepth => ?_, fun id isOpen depth hdepth => ?_,
    fun id paths depth hdepth => ?_⟩
  · rw [TypeTable.display, eq_unrolled (f := types.displayWithin _) rfl fun _ => rfl]
    exact hlayered.unrolled_eq (fun _ _ _ => displayStep_congr) _ _ hdepth
  · rw [TypeTable.isOpen, eq_unrolled (f := types.isOpenWithin) rfl fun _ => rfl]
    exact hlayered.unrolled_eq (fun _ _ _ => isOpenStep_congr) _ _ hdepth
  · rw [TypeTable.namespacePath, eq_unrolled (f := types.namespaceNames) rfl fun _ => rfl,
      hlayered.unrolled_namespaces paths _ hdepth]

/-- Every link needs a link of longer lists, so that a check of links never ends of itself. -/
def links : Program :=
  .ofFiles .default .empty [⟨"links", [
    .namespaceDecl "Lists" false [
      .modelDecl "Link" ["T"] none none [.required "value" "T",
         .property "next" false (.reference "Link" [.array (.reference "T" [])]) none []] []] []]⟩]

/-- A check that comes to the error type at once, unless a model is asked for. -/
def stop : Check := fun node => do
  match (← getTree).kind? node with
  | some (.modelExpression _) => tooDeep
  | _ => pure TypeTable.errorType

theorem stop_cases {env : Environment} {node : NodeId} {s s' : State} {t : TypeId}
    (hrun : stop node env s = some (t, s')) :
    t = TypeTable.errorType ∧ s' = s ∧
      ∀ members, env.tree.kind? node ≠ some (.modelExpression members) := by
  rw [stop, getTree_bind] at hrun
  replace hrun := run_chosen hrun
  split at hrun
  · exact absurd hrun run_tooDeep
  · obtain ⟨rfl, rfl⟩ := run_pure.mp hrun
    exact ⟨rfl, rfl, by assumption⟩

/-- A link is named after nested lists. -/
theorem naming_terminates_links :
    ∃ s, Passed links stop s ∧ s.types.display links.tree ⟨10⟩ = "Lists.Link<T[][]>" ∧
      unrolled (s.types.displayStep links.tree) (fun _ => "?") 11 ⟨10⟩ = "Lists.Link<T[][]>" ∧
      unrolled s.types.isOpenStep (fun _ => false) 11 ⟨10⟩ = true ∧
      DottedPath.join (unrolled s.types.namespaceNamesStep (fun _ => ["?"]) 4 (some ⟨2⟩)).reverse =
        "Lists" := by
  have hrun : ((prepare links.environment (.initial links.bindings)).any fun prepared =>
      (checkDown stop 6 ⟨30⟩ links.environment prepared.2).any fun outcome =>
        outcome.2.types.display links.tree ⟨10⟩ = "Lists.Link<T[][]>" ∧
        outcome.2.types.isOpen ⟨10⟩ = true ∧
        outcome.2.types.namespacePath (some ⟨2⟩) = "Lists") = true := by decide +kernel
  obtain ⟨⟨_, s₁⟩, hprepare, hrun⟩ := (Option.any_eq_true _ _).mp hrun
  obtain ⟨⟨t, s⟩, hrun, hfacts⟩ := (Option.any_eq_true _ _).mp hrun
  obtain ⟨hname, hopen, hpath⟩ := of_decide_eq_true hfacts
  have hpassed : Passed links stop s := .during (.initial _ _ _) hprepare .refl (.ended hrun)
  have hframed : Framed links.environment stop :=
    ⟨fun hrun => (stop_cases hrun).2.1 ▸ .refl _ _,
      fun hkind hrun => absurd hkind ((stop_cases hrun).2.2 _)⟩
  have hgrounded : Grounded links.environment stop := fun h hrun => by
    obtain ⟨rfl, rfl, -⟩ := stop_cases hrun
    exact ⟨h, h.error⟩
  obtain ⟨-, hdisplay, hopens, hpaths⟩ := naming_terminates hframed hgrounded hpassed (.refl _)
  exact ⟨s, hpassed, hname, (hdisplay _ _ _ (by decide)).trans hname,
    (hopens _ _ _ (by decide)).trans hopen, (hpaths _ _ _ (by decide)).trans hpath⟩

end Checking

end ApiSchema
