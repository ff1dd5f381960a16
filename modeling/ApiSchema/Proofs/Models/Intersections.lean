import ApiSchema.Proofs.Checking.Probing
import ApiSchema.Proofs.Models.AcyclicBases
import ApiSchema.Proofs.Models.Filling
import ApiSchema.Proofs.Models.Selection

/-!
# Intersections

The operands of an intersection are checked first. If all of them are models or template parameters
the intersection is a new model with copies of their properties, of which the first of each name is
taken and every other one is reported at its operand. Otherwise the first operand that is neither is
reported and there is no model.

To copy a property adds a type and changes none, so that all properties can be told from the table
as it was when the last operand had been checked.
-/

namespace ApiSchema

open OrderedMap TypeTable ModelType Option

namespace TypeTable

variable {types types' : TypeTable} {id : TypeId}

/-- Whether a type is a model or a template parameter. -/
def canIntersect (types : TypeTable) (id : TypeId) : Bool :=
  match types.shape? id with
  | some .templateParameter => true
  | some (.model _) => true
  | _ => false

/-- What operands offer: their properties, inherited or not, one operand after the other. -/
def offered (types : TypeTable) (operands : List (NodeId × TypeId)) :
    List (Checking.Candidate TypeId) :=
  operands.flatMap fun operand =>
    Checking.candidates types operand.1 [] (types.inheritedProperties operand.2)

theorem Grows.canIntersect (h : types.Grows types') (hid : types.Has id) :
    types'.canIntersect id = types.canIntersect id := by
  obtain ⟨⟨node, shape⟩, hrow⟩ := hid
  have hshape : types.shape? id = some shape := congrArg (Option.map TypeRecord.shape) hrow
  obtain ⟨shape', hshape', hgrown⟩ := h.shape hshape
  rw [TypeTable.canIntersect, TypeTable.canIntersect, hshape, hshape']
  cases hgrown <;> rfl

theorem Coherent.namesProperties (h : types.Coherent) : types.NamesProperties :=
  fun {id _} hm entry hentry => by
    obtain ⟨row, hrow, hshape⟩ := map_eq_some_iff.mp (model?_eq_some_iff.mp hm)
    exact (h.fits hrow).properties hshape (find?_eq_some_iff.mpr hentry)

end TypeTable

namespace Checking

variable {env : Environment} {s s₁ s₂ : State} {selection : Selection TypeId}
  {id : TypeId}
  {properties : OrderedMap String TypeId} {place : NodeId}

theorem Frame.inheritedProperties {m : ModelType} (h : Frame none s s₁) (hbased : s.types.Based)
    (hm : s.types.model? id = some m) :
    s₁.types.inheritedProperties id = s.types.inheritedProperties id := by
  have hmodel : ∀ k ∈ s.types.baseChain id, s₁.types.model? k = s.types.model? k := by
    intro k hk
    obtain ⟨mk, hmk⟩ := exists_model_of_mem_baseChainFrom hbased hm hk
    rw [hmk, model?_eq_some_iff]
    exact h.shape (by simp) (model?_eq_some_iff.mp hmk) rfl
  rw [TypeTable.inheritedProperties, TypeTable.inheritedProperties,
    baseChain_congr hbased (has_of_model hm) h.grows.size_le hmodel]
  exact List.flatMap_congr fun k hk => by
    rw [TypeTable.ownProperties, TypeTable.ownProperties, hmodel k hk]

/-! ### Gathering properties -/

/-- From one state to another, copies have been made of the properties that are accepted, and the
others have been reported. -/
structure Intersects (env : Environment) (s : State) (selection : Selection TypeId)
    (properties : OrderedMap String TypeId) (s' : State) : Prop where
  frame : Frame none s s'
  entries : List.Forall₂ (fun copy original =>
      copy.1 = original.1 ∧ s.types.Copied s'.types original.2 copy.2)
    properties.entries selection.entries
  reports : s'.diagnostics.about [3006, 3007] = s.diagnostics.about [3006, 3007] ++
    selection.reports env.tree fun _ => .intersectionDuplicate

/-- Copies stand under the names of the originals. -/
theorem keys_eq_names {before after : TypeTable} (h : List.Forall₂
      (fun (copy original : String × TypeId) =>
        copy.1 = original.1 ∧ before.Copied after original.2 copy.2)
      properties.entries selection.entries) : properties.keys = selection.names := by
  rw [← List.forall₂_eq_eq_eq, OrderedMap.keys, Selection.names, List.forall₂_map_left_iff,
    List.forall₂_map_right_iff]
  exact h.imp fun _ _ hentry => hentry.1

section

variable (hwf : env.tree.WellFormed)

include hwf

/-- The first property of a name is copied. -/
theorem intersectProperty_intersects {node : Option NodeId} {p : PropertyType}
    (h : Intersects env s selection properties s₁)
    (hrow : s.types.get? id = some ⟨node, .property p⟩) (finish : Bool) :
    ∃ properties' s₂, intersectProperty finish place properties id env s₁ = some (properties', s₂) ∧
      Intersects env s (selection.add ⟨p.name, id, place, []⟩) properties' s₂ := by
  have hrow₁ : s₁.types.get? id = some ⟨node, .property p⟩ := h.frame.kept hrow (by simp) rfl
  have hp₁ : s₁.types.property? id = some p := by
    simp [property?, shape?, hrow₁]
  have hkeys : properties.keys = selection.names := keys_eq_names h.entries
  simp only [intersectProperty, getTypes_bind, hp₁]
  by_cases htaken : p.name ∈ selection.names
  · rw [if_pos (contains_iff.mpr (hkeys ▸ htaken)), Selection.add, if_pos htaken]
    refine ⟨properties, _, rfl, h.frame.trans (.ofQuiet ⟨rfl, List.prefix_append _ _⟩), h.entries, ?_⟩
    dsimp only
    rw [about_add (by decide), h.reports, reports_reject, List.append_assoc]
  · have hnew : properties.find? p.name = none := by
      rw [find?_eq_none_iff, hkeys]
      exact htaken
    rw [if_neg (mt contains_iff.mp (hkeys ▸ htaken)), Selection.add, if_neg htaken,
      if_neg (by simp)]
    have hanswers : Answers env s₁ (copyProperty finish id) :=
      (Answers.rules hwf s₁).copyProperty finish id
    obtain ⟨copy, s₂, hcopy⟩ := hanswers.run
    have hframe : Frame none s₁ s₂ := copyProperty_frame hcopy
    refine ⟨_, s₂, run_bind.mpr ⟨_, s₂, hcopy, rfl⟩, h.frame.trans hframe, ?_, ?_⟩
    · rw [entries_insert _ hnew]
      exact List.rel_append
        (h.entries.imp fun _ _ hentry => ⟨hentry.1, hframe.copied (by simp) hentry.2⟩)
        (.cons ⟨rfl, copyProperty_copied h.frame hrow hcopy⟩ .nil)
    · have hquiet : Tells env (·.code ∉ [3006, 3007]) (copyProperty finish id) :=
        (copyProperty_tells _ _).mono fun message hcode => by simp; omega
      exact (hquiet.about hcopy).trans h.reports

/-- Properties come one after the other. -/
theorem intersectProperties_intersects {ids : List TypeId} (hall : s.types.AllProperties ids)
    (h : Intersects env s selection properties s₁) (finish : Bool) :
    ∃ properties' s₂,
      ids.foldlM (intersectProperty finish place) properties env s₁ = some (properties', s₂) ∧
      Intersects env s ((candidates s.types place [] ids).foldl Selection.add selection) properties' s₂ := by
  induction ids generalizing selection properties s₁ with
  | nil => exact ⟨properties, s₁, rfl, h⟩
  | cons id ids ih =>
    obtain ⟨⟨p, hp⟩, hrest⟩ := List.forall_mem_cons.mp hall
    obtain ⟨⟨node, _⟩, hrow, rfl⟩ := map_eq_some_iff.mp (property?_eq_some_iff.mp hp)
    obtain ⟨properties₁, s₂, hfirst, h₁⟩ := intersectProperty_intersects hwf h hrow finish
    obtain ⟨properties₂, s₃, hothers, h₂⟩ := ih hrest h₁
    refine ⟨properties₂, s₃, run_foldlM_cons.mpr ⟨_, _, hfirst, hothers⟩, ?_⟩
    rwa [candidates, List.filterMap_cons, hp]

/-- All properties that the operands offer are gathered, as long as these are models and template
parameters; then the rest of the operands is left. -/
theorem intersectOperands_intersects (hbased : s.types.Based) (hnamed : s.types.NamesProperties)
    (finish : Bool) (rest : List (NodeId × TypeId)) {operands : List (NodeId × TypeId)}
    (hall : ∀ o ∈ operands, s.types.canIntersect o.2 = true)
    (h : Intersects env s selection properties s₁) :
    ∃ properties' s₂, intersectOperands finish (operands ++ rest) properties env s₁ =
        intersectOperands finish rest properties' env s₂ ∧
      Intersects env s ((s.types.offered operands).foldl Selection.add selection) properties' s₂ := by
  induction operands generalizing selection properties s₁ with
  | nil => exact ⟨properties, s₁, rfl, h⟩
  | cons o operands ih =>
    obtain ⟨place, operand⟩ := o
    obtain ⟨ho, hothers⟩ := List.forall_mem_cons.mp hall
    rw [offered, List.flatMap_cons, List.foldl_append]
    rw [canIntersect] at ho
    split at ho
    next hshape =>
      have hother : s.types.model? operand = none := by simp [model?, hshape]
      have hnone : s.types.inheritedProperties operand = [] := by
        rw [inheritedProperties, baseChain_of_base_none (by simp [hother])]
        simp [ownProperties, hother]
      have hshape₁ := h.frame.shape (by simp) hshape rfl
      rw [hnone, List.cons_append, intersectOperands, getTypes_bind, hshape₁]
      exact ih hothers h
    next m hshape =>
      have hm := model?_eq_some_iff.mpr hshape
      have hprops : s.types.AllProperties (s.types.inheritedProperties operand) :=
        allProperties_reading (t := operand) hnamed place .spread operand
      obtain ⟨properties₁, s₂, hfirst, h₁⟩ := intersectProperties_intersects hwf hprops h finish
      obtain ⟨properties₂, s₃, hrest, h₂⟩ := ih hothers h₁
      have hshape₁ := h.frame.shape (by simp) hshape rfl
      refine ⟨properties₂, s₃, ?_, h₂⟩
      rw [← hrest, List.cons_append, intersectOperands, getTypes_bind, hshape₁]
      dsimp only
      rw [h.frame.inheritedProperties hbased hm, bind_of_run hfirst]
    · simp at ho

omit hwf in
/-- An operand that is neither a model nor a template parameter is reported. -/
theorem intersectOperands_fails (finish : Bool) (properties : OrderedMap String TypeId)
    {operand : TypeId} {after : List (NodeId × TypeId)} (h : s.types.canIntersect operand = false) :
    intersectOperands finish ((place, operand) :: after) properties env s = some (none, { s with
      diagnostics := s.diagnostics.add
        (diagnosticAt env.tree .intersectionOfNonModel [] (some place)) }) := by
  rw [canIntersect] at h
  rw [intersectOperands, getTypes_bind]
  cases hshape : s.types.shape? operand with
  | none => rfl
  | some shape =>
    rw [hshape] at h
    cases shape <;> first | rfl | simp at h

end

/-! ### The type of an intersection -/

section

variable {program : Program} {node : NodeId} {operands : List NodeId} {types : List TypeId}
  {depth : Nat}

theorem Passed.wellFormed {deeper : Check} (h : Passed program deeper s) :
    program.environment.tree.WellFormed := by
  cases h with
  | between h => exact h.wellFormed
  | during h => exact h.wellFormed

/-- In the states that a session passes through the types are coherent and no model leads back to
itself. -/
theorem Passed.sound (h : Passed program (fun _ => tooDeep) s) : s.Coherent ∧ s.types.Acyclic :=
  ⟨h.coherent ⟨fun hrun => absurd hrun run_tooDeep, fun _ hrun => absurd hrun run_tooDeep⟩
      fun _ hrun => absurd hrun run_tooDeep,
    h.upheld Lasting.acyclic (fun _ hrun => absurd hrun run_tooDeep)
      fun _ _ _ hblank => hblank.acyclic⟩

theorem checkOperands_checked (hwf : env.tree.WellFormed) (h : s.Coherent)
    (hrun : operands.mapM (checkNode depth) env s = some (types, s₁)) :
    Checked env s s₁ ∧ ∀ t ∈ types, s₁.types.Has t := by
  induction operands generalizing s types with
  | nil =>
    obtain ⟨rfl, rfl⟩ := run_mapM_nil.mp hrun
    exact ⟨.refl, by simp⟩
  | cons n operands ih =>
    obtain ⟨t, s₂, rest, hfirst, hrest, rfl⟩ := run_mapM_cons.mp hrun
    obtain ⟨hcoherent, ht⟩ := checkNode_grounded hwf depth h hfirst
    obtain ⟨hchk, hhas⟩ := ih hcoherent hrest
    exact ⟨.head ⟨depth, n, t, hfirst⟩ hchk,
      List.forall_mem_cons.mpr ⟨(hchk.frame hwf).grows.has ht, hhas⟩⟩

/-- Once the operands of an intersection have been checked, its own check comes to an end. If they
are all models and template parameters it makes a new model without a name and without a base. Its
properties are new copies of the first property of each name among all that the operands have or
inherit, in that order, and what is reported is every other property, at its operand. Otherwise the
answer is the error type, and the first operand that is neither is reported, after the properties
that were left out up to there. -/
theorem intersection_merges (h : Passed program (fun _ => tooDeep) s)
    (hkind : program.tree.kind? node = some (.intersectionExpression operands))
    (hoperands : operands.mapM (checkNode depth) program.environment s = some (types, s₁)) :
    ∃ t s', checkNode (depth + 1) node program.environment s = some (t, s') ∧
      ((∀ o ∈ operands.zip types, s₁.types.canIntersect o.2 = true) →
        ¬ s₁.types.Has t ∧
        ∃ properties : OrderedMap String TypeId,
          s'.types.get? t = some ⟨some node, .model { anonymous with properties }⟩ ∧
          List.Forall₂ (fun copy original =>
              copy.1 = original.1 ∧ s₁.types.Copied s'.types original.2 copy.2)
            properties.entries (Selection.of (s₁.types.offered (operands.zip types))).entries ∧
          s'.diagnostics.about [3006, 3007] = s₁.diagnostics.about [3006, 3007] ++
            (Selection.of (s₁.types.offered (operands.zip types))).reports program.tree
              fun _ => .intersectionDuplicate) ∧
      (¬ (∀ o ∈ operands.zip types, s₁.types.canIntersect o.2 = true) →
        t = errorType ∧
        ∃ before place operand after, operands.zip types = before ++ (place, operand) :: after ∧
          (∀ o ∈ before, s₁.types.canIntersect o.2 = true) ∧
          s₁.types.canIntersect operand = false ∧
          s'.diagnostics.about [3006, 3007] = s₁.diagnostics.about [3006, 3007] ++
            ((Selection.of (s₁.types.offered before)).reports program.tree
              fun _ => .intersectionDuplicate) ++
            [diagnosticAt program.tree .intersectionOfNonModel [] (some place)]) := by
  have hwf := h.wellFormed
  obtain ⟨hcoherent, hacyclic⟩ := h.sound
  obtain ⟨hchecked, hhas⟩ := checkOperands_checked hwf hcoherent hoperands
  have hcoherent₁ := hchecked.coherent hwf hcoherent
  have hacyclic₁ := hchecked.upheld Lasting.acyclic hacyclic
  have hstep : ∀ {found s₂}, intersectOperands (s₁.shouldFinish program.tree node)
      (operands.zip types) .empty program.environment s₁ = some (found, s₂) →
      checkNode (depth + 1) node program.environment s = found.elim (pure errorType)
        (fun properties => addType (some node) (.model { anonymous with properties }))
        program.environment s₂ := by
    intro found s₂ hrun
    rw [checkNode, checkStep, getTree_bind, show program.environment.tree = program.tree from rfl,
      hkind]
    refine (bind_of_run hoperands).trans ((bind_of_run rfl).trans ((bind_of_run hrun).trans ?_))
    cases found <;> rfl
  have hgather : ∀ before rest, (∀ o ∈ before, s₁.types.canIntersect o.2 = true) →
      ∃ properties s₂, intersectOperands (s₁.shouldFinish program.tree node) (before ++ rest) .empty
          program.environment s₁ = intersectOperands (s₁.shouldFinish program.tree node) rest
            properties program.environment s₂ ∧
        Intersects program.environment s₁ (Selection.of (s₁.types.offered before)) properties s₂ :=
    fun before rest hall => intersectOperands_intersects hwf hacyclic₁.based
      hcoherent₁.types.namesProperties _ rest hall ⟨.refl _ _, .nil, by simp [Selection.reports]⟩
  by_cases hall : ∀ o ∈ operands.zip types, s₁.types.canIntersect o.2 = true
  · obtain ⟨properties, s₂, hrun, h₂⟩ := hgather _ [] hall
    rw [List.append_nil] at hrun
    have hframe : Frame none s₂
        (s₂.addRow ⟨some node, .model { anonymous with properties }⟩) := .addRow (by simp)
    refine ⟨_, _, hstep hrun, fun _ => ⟨fun hnew => ?_, properties, ?_, ?_, ?_⟩,
      fun hnot => absurd hall hnot⟩
    · exact not_has_nextId (h₂.frame.grows.has hnew)
    · exact Table.get?_push_nextId _ _
    · exact h₂.entries.imp fun _ _ hentry => ⟨hentry.1, hframe.copied (by simp) hentry.2⟩
    · exact h₂.reports
  · obtain ⟨⟨place, operand⟩, hfound⟩ : ∃ o,
        (operands.zip types).find? (fun o => !s₁.types.canIntersect o.2) = some o := by
      rw [← isSome_iff_exists, List.find?_isSome]
      simpa using hall
    obtain ⟨hoperand, before, after, hzip, hbefore⟩ := List.find?_eq_some_iff_append.mp hfound
    have hbefore : ∀ o ∈ before, s₁.types.canIntersect o.2 = true := by simpa using hbefore
    have hoperand : s₁.types.canIntersect operand = false := by simpa using hoperand
    obtain ⟨properties, s₂, hrun, h₂⟩ := hgather before ((place, operand) :: after) hbefore
    have hfails : s₂.types.canIntersect operand = false := by
      rw [h₂.frame.grows.canIntersect (hhas _ (List.of_mem_zip (List.mem_of_find?_eq_some hfound)).2),
        hoperand]
    rw [← hzip, intersectOperands_fails _ _ hfails] at hrun
    refine ⟨_, _, hstep hrun, fun hyes => absurd hyes hall, fun _ =>
      ⟨rfl, before, place, operand, after, hzip, hbefore, hoperand, ?_⟩⟩
    dsimp only
    rw [about_add (by decide), h₂.reports]
    rfl

end

/-- A box is an item, and a tag is a box and a label, both of which have an `id`:
`model Item { id: string }`, `model Box extends Item { size: string }`,
`model Label { id: string, text: string }` and `alias Tag = Box & Label`. -/
def tags : Program :=
  .ofFiles .default .empty [⟨"tags", [
    .model "Item" [.required "id" "string"],
    .modelDecl "Box" [] (some (.reference "Item" [])) none [.required "size" "string"] [],
    .model "Label" [.required "id" "string", .required "text" "string"],
    .aliasDecl "Tag" [] (.intersection [.reference "Box" [], .reference "Label" []])]⟩]

/-- A tag has the `id` of the item and not that of the label. -/
theorem intersection_merges_tags :
    ∃ s t s' properties, Passed tags (fun _ => tooDeep) s ∧
      checkNode 9 ⟨41⟩ tags.environment s = some (t, s') ∧
      s'.types.get? t = some ⟨some ⟨41⟩, .model { anonymous with properties }⟩ ∧
      properties.keys = ["size", "id", "text"] ∧
      s'.diagnostics.about [3006, 3007] =
        [diagnosticAt tags.tree .intersectionDuplicate ["id"] (some ⟨40⟩)] := by
  have hevaluated : ((prepare tags.environment (.initial tags.bindings)).any fun prepared =>
      ((([⟨38⟩, ⟨40⟩] : List NodeId).mapM (checkNode 8)) tags.environment prepared.2).any fun outcome =>
        let operands := ([⟨38⟩, ⟨40⟩] : List NodeId).zip outcome.1
        (∀ o ∈ operands, outcome.2.types.canIntersect o.2 = true) ∧
        (Selection.of (outcome.2.types.offered operands)).names = ["size", "id", "text"] ∧
        (Selection.of (outcome.2.types.offered operands)).reports tags.tree
          (fun _ => .intersectionDuplicate) =
          [diagnosticAt tags.tree .intersectionDuplicate ["id"] (some ⟨40⟩)] ∧
        outcome.2.diagnostics.about [3006, 3007] = []) = true := by decide +kernel
  obtain ⟨⟨_, s⟩, hprepare, hevaluated⟩ := (any_eq_true _ _).mp hevaluated
  obtain ⟨⟨types, s₁⟩, hoperands, hfacts⟩ := (any_eq_true _ _).mp hevaluated
  obtain ⟨hall, hnames, hreports, hnone⟩ := of_decide_eq_true hfacts
  have hpassed : Passed tags (fun _ => tooDeep) s :=
    .during (.initial _ _ _) hprepare .refl (.begun 9 ⟨41⟩ s)
  have hkind : tags.tree.kind? ⟨41⟩ = some (.intersectionExpression [⟨38⟩, ⟨40⟩]) := by
    decide +kernel
  obtain ⟨t, s', hrun, hmodel, -⟩ := intersection_merges hpassed hkind hoperands
  obtain ⟨-, properties, hrow, hcopies, htold⟩ := hmodel hall
  exact ⟨s, t, s', properties, hpassed, hrun, hrow, (keys_eq_names hcopies).trans hnames,
    by rw [htold, hreports, hnone, List.nil_append]⟩

end Checking

end ApiSchema
