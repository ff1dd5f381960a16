import ApiSchema.Proofs.Decorating.Disclosure

/-!
# The members of enums

A member of an enum is built while the enum is under construction, and points back to it. The enum
lists its members only when all of them are built, and in between any number of other enums may be
checked. When a check is over, all the enums that it has made list exactly the members that point
back to them, and no two members of an enum have the same name.
-/

namespace ApiSchema

open TypeTable List

variable {members known key : List TypeId} {other : TypeId} {e e' : EnumType}
  {template : Option NodeId} {floor : Nat} {places : List NodeId} {f : TypeShape → TypeShape}
  {row : TypeRecord} {own : Option TypeId}

namespace TypeTable

variable {types types' types'' : TypeTable} {own : Option TypeId} {id t : TypeId}

/-- A type is a member of an enum. -/
def Belongs (types : TypeTable) (id t : TypeId) : Prop :=
  ∃ m, types.shape? id = some (.enumMember m) ∧ m.enumType = t

/-- The listed members of an enum are exactly those that belong to it, and have different names. -/
structure Enrolled (types : TypeTable) (t : TypeId) (members : List TypeId) : Prop where
  mem_iff {id : TypeId} : id ∈ members ↔ types.Belongs id t
  names : (members.map types.name?).Nodup

theorem Grows.name {name : String} (h : types.Grows types') (hname : types.name? id = some name) :
    types'.name? id = some name := by
  obtain ⟨shape, hshape, hold⟩ := Option.bind_eq_some_iff.mp hname
  obtain ⟨shape', hshape', hgrown⟩ := h.shape hshape
  have hkept : shape'.name? = shape.name? := by
    cases hgrown with
    | same => rfl
    | model h => exact congrArg some (by rw [h.eq])
    | interface heq | enum heq => exact congrArg some (by rw [heq])
    | contents h => exact congrArg some h.name
  exact Option.bind_eq_some_iff.mpr ⟨shape', hshape', hkept.trans hold⟩

/-- Members are complete from the start. -/
theorem Belongs.grows (h : types.Belongs id t) (hgrows : types.Grows types') :
    types'.Belongs id t := by
  obtain ⟨m, hm, hmember⟩ := h
  obtain ⟨shape, hshape, hgrown⟩ := hgrows.shape hm
  cases hgrown
  exact ⟨m, hshape, hmember⟩

/-- An enum that gets no new members is listed as before. -/
theorem Enrolled.grows (h : types.Enrolled t members) (hgrows : types.Grows types')
    (hold : ∀ {id}, types'.Belongs id t → types.Belongs id t) :
    types'.Enrolled t members := by
  refine ⟨⟨fun hid => (h.mem_iff.mp hid).grows hgrows, fun hid => h.mem_iff.mpr (hold hid)⟩, ?_⟩
  have hnames : members.map types'.name? = members.map types.name? := by
    refine map_congr_left fun id hid => ?_
    obtain ⟨m, hm, -⟩ := h.mem_iff.mp hid
    have hname : types.name? id = some m.name := by rw [name?, hm]; rfl
    rw [hname, hgrows.name hname]
  exact hnames ▸ h.names

/-- The enums that members belong to are there. -/
def Anchored (types : TypeTable) : Prop := ∀ {id t : TypeId}, types.Belongs id t → types.Has t

/-- Between the tables no enum that was there got members, except for `own`, and the enums that are
new list their members. -/
structure Enrolls (own : Option TypeId) (types types' : TypeTable) : Prop where
  frozen : types.Frozen own types'
  joined {id t : TypeId} : types'.Belongs id t → types.Has t → types.Belongs id t ∨ own = some t
  anchored : (∀ id, own = some id → types.Has id) → types.Anchored → types'.Anchored
  enrolled {t : TypeId} {e : EnumType} : (∀ id, own = some id → types.Has id) → types.Anchored →
    types'.enum? t = some e → ¬ types.Has t → types'.Enrolled t e.members

namespace Enrolls

theorem refl (own : Option TypeId) (types : TypeTable) : types.Enrolls own types where
  frozen := .refl _ _
  joined hid _ := Or.inl hid
  anchored _ h := h
  enrolled _ _ he hnew := absurd (has_of_shape (enum?_eq_some_iff.mp he)) hnew

/-- Members are enrolled step by step. -/
theorem trans (h : types.Enrolls own types') (h' : types'.Enrolls own types'') :
    types.Enrolls own types'' where
  frozen := h.frozen.trans h'.frozen
  joined hid ht := (h'.joined hid (h.frozen.grows.has ht)).elim (h.joined · ht) Or.inr
  anchored hown ha := h'.anchored (fun id hid => h.frozen.grows.has (hown id hid))
    (h.anchored hown ha)
  enrolled := fun {t e} hown ha he hnew => by
    have hown' : ∀ id, own = some id → types'.Has id := fun id hid =>
      h.frozen.grows.has (hown id hid)
    by_cases hhas : types'.Has t
    · -- The enum was made in the first part, and the second part left it alone.
      have hother : own ≠ some t := fun heq => hnew (hown t heq)
      have henum : types'.enum? t = some e := by
        obtain ⟨⟨node, shape⟩, hrow⟩ := hhas
        have hshape := enum?_eq_some_iff.mp he
        rw [enum?_eq_some_iff, shape?, hrow]
        cases hns : shape.isNamespace with
        | false => rwa [shape?, h'.frozen.kept hrow hother hns] at hshape
        | true =>
          cases shape with
          | namespaceType n =>
            obtain ⟨n', hrow', -⟩ := h'.frozen.namespaceType hrow
            simp [shape?, hrow'] at hshape
          | _ => simp at hns
      exact (h.enrolled hown ha henum hnew).grows h'.frozen.grows fun hid =>
        (h'.joined hid hhas).resolve_right hother
    · exact h'.enrolled hown' (h.anchored hown ha) he hhas

theorem mono (h : types.Enrolls none types') (own : Option TypeId) : types.Enrolls own types' where
  frozen := ⟨h.frozen.grows, fun hrow _ => h.frozen.kept hrow (by simp)⟩
  joined hid ht := Or.inl ((h.joined hid ht).resolve_right (by simp))
  anchored _ := h.anchored (by simp)
  enrolled _ := h.enrolled (by simp)

theorem belongs_push :
    Belongs (types.push row) id t ↔ types.Belongs id t ∨
      id = types.nextId ∧ ∃ m, row.shape = .enumMember m ∧ m.enumType = t := by
  rw [Belongs, shape?_push]
  split
  next hnext =>
    have hnot : ¬ types.Belongs id t := fun ⟨m, hm, _⟩ => not_has_nextId (hnext ▸ has_of_shape hm)
    rw [or_iff_right hnot]
    simp [hnext]
  next hnext => simp [Belongs, hnext]

/-- Nothing but an enum needs to list members. -/
theorem push (hmember : ∀ {m : EnumMemberType}, row.shape = .enumMember m → own = some m.enumType)
    (henum : ∀ e, row.shape ≠ .enumType e) :
    types.Enrolls own (types.push row) where
  frozen := .push _ _ _
  joined hid _ := (belongs_push.mp hid).imp_right fun ⟨_, m, hm, ht⟩ => ht ▸ hmember hm
  anchored hown ha := fun {id t} hid => by
    refine (Grows.push types row).has ?_
    rcases belongs_push.mp hid with hid | ⟨-, m, hm, rfl⟩
    · exact ha hid
    · exact hown _ (hmember hm)
  enrolled := fun {t e} _ _ he hnew => by
    rcases shape?_push_cases (enum?_eq_some_iff.mp he) with ⟨-, hshape⟩ | hshape
    · exact absurd hshape.symm (henum e)
    · exact absurd (has_of_shape hshape) hnew

/-- Changes that keep the rows, and keep members what they are, add no members. -/
theorem of_belongs (hfrozen : types.Frozen own types') (hsize : types'.size = types.size)
    (hbelongs : ∀ {id t}, types'.Belongs id t → types.Belongs id t) : types.Enrolls own types' where
  frozen := hfrozen
  joined hid _ := Or.inl (hbelongs hid)
  anchored _ ha := fun hid => hfrozen.grows.has (ha (hbelongs hid))
  enrolled _ _ he hnew := by
    have hhas := has_iff.mp (has_of_shape (enum?_eq_some_iff.mp he))
    exact absurd (has_iff.mpr (hsize ▸ hhas)) hnew

theorem belongs_modifyShape
    (hf : ∀ {shape m}, types.shape? id = some shape → f shape = .enumMember m →
      shape = .enumMember m)
    (h : (types.modifyShape id f).Belongs other t) : types.Belongs other t := by
  obtain ⟨m, hm, ht⟩ := h
  obtain ⟨shape, hshape, rfl | ⟨rfl, hmember⟩⟩ := shape?_modifyShape_cases hm
  · exact ⟨m, hshape, ht⟩
  · exact ⟨m, hf hshape hmember.symm ▸ hshape, ht⟩

/-- What is amended becomes no member. -/
theorem belongs_amended
    (hf : ∀ {shape}, types.shape? id = some shape → shape.Amended types known id (f shape))
    (h : (types.modifyShape id f).Belongs other t) : types.Belongs other t := by
  refine belongs_modifyShape (fun {shape m} hshape hmember => ?_) h
  have hamended := hf hshape
  rw [hmember] at hamended
  cases hamended
  rfl

theorem fill (id : TypeId) {f : NamespaceType → NamespaceType}
    (hf : ∀ n : NamespaceType, n.Extends (f n)) : types.Enrolls own (types.modifyNamespace id f) :=
  of_belongs (.fill own types id hf) (Table.size_modify _ _ _)
    (belongs_modifyShape fun {shape m} _ hmember => by cases shape <;> simp_all)

/-- While `own` is amended it gets no members, nor does any other enum. -/
theorem amend {known : List TypeId} {f : TypeShape → TypeShape}
    (h : ∀ {shape}, types.shape? id = some shape → shape.Amended types known id (f shape)) :
    types.Enrolls (some id) (types.modifyShape id f) := by
  refine of_belongs ⟨.modifyShape fun hshape => (h hshape).grown, fun hrow hother _ => ?_⟩
    (Table.size_modify _ _ _) (belongs_amended h)
  rw [get?_modifyShape, if_neg fun heq => hother (congrArg some heq.symm), hrow]

/-- The construction of a type is over when it lists its members, if it is an enum. -/
theorem construct (hrow : ∀ m, row.shape ≠ .enumMember m)
    (h : Enrolls (some types.nextId) (types.push row) types')
    (henum : ∀ {e}, types.Anchored → types'.enum? types.nextId = some e →
      types'.Enrolled types.nextId e.members) :
    types.Enrolls none types' := by
  have hpush : types.Grows (Table.push types row) := .push _ _
  have hopen : ∀ id, some types.nextId = some id → Has (types.push row) id := fun id hid =>
    Option.some.inj hid ▸ has_of_shape (shape?_push_nextId row)
  have hsame : ∀ {id u}, Belongs (types.push row) id u → types.Belongs id u := fun hid =>
    (belongs_push.mp hid).resolve_right fun ⟨_, m, hm, _⟩ => hrow m hm
  have hstart : types.Anchored → Anchored (types.push row) := fun ha _ _ hid =>
    hpush.has (ha (hsame hid))
  refine ⟨⟨hpush.trans h.frozen.grows, fun {id old} hold _ hshape => ?_⟩, fun {id u} hid hu => ?_,
    fun _ ha => h.anchored hopen (hstart ha), fun {u e} _ ha he hu => ?_⟩
  · refine h.frozen.kept ((get?_push_of_has ⟨old, hold⟩).trans hold) (fun heq => ?_) hshape
    have hnext : types.Has types.nextId := ⟨old, Option.some.inj heq ▸ hold⟩
    exact not_has_nextId hnext
  · rcases h.joined hid (hpush.has hu) with hold | heq
    · exact .inl (hsame hold)
    · exact absurd (Option.some.inj heq ▸ hu) not_has_nextId
  · by_cases hnext : u = types.nextId
    · subst hnext
      exact henum ha he
    · exact h.enrolled hopen (hstart ha) he fun ⟨found, hfound⟩ => hu ⟨found,
        (Table.get?_push_cases hfound).resolve_left fun heq => hnext heq.1⟩

end Enrolls

end TypeTable

/-- An enum without members is amended when its members are listed. -/
theorem TypeShape.Amended.enroll (types : TypeTable) (members : List TypeId) (own : TypeId)
    (hempty : e.members = []) (shape : TypeShape) :
    some (.enumType e) = some shape → shape.Amended types members own (match shape with
      | .enumType e => .enumType { e with members }
      | shape => shape) := by
  intro hshape
  cases hshape
  exact .members hempty (List.Subset.refl _)

namespace Checking

variable {env : Environment} {check : Check} {node : NodeId} {s s' s₁ s₂ : State} {t : TypeId}

/-! ### Checks -/

/-- Only enums enroll members. -/
theorem enrolls_stepwise (own : Option TypeId) :
    Stepwise env own fun s s' => s.types.Enrolls own s'.types where
  refl s := .refl _ _
  trans := .trans
  quiet h := h.types ▸ .refl _ _
  raised _ := .refl _ _
  added := fun {s s' row finish} hplain _ hmember hfin => by
    rw [hfin.types]
    refine .push hmember fun e he => ?_
    simp [he] at hplain
  assembled _ _ := .push (by simp) (by simp)
  literal _ _ literal _ := .push (by cases literal <;> simp)
    (by cases literal <;> simp)
  parameter _ := .push (by simp) (by simp)
  intrinsic := fun {s node name} _ _ => by
    rw [State.entered, State.declare_eq]
    exact .push (by simp) (by simp)
  reference _ _ := .refl _ _
  instantiated _ _ _ _ := .refl _ _
  within _ _ h := h

section

variable (hcheck : Relates env (fun s s' => s.types.Enrolls none s'.types) check)

include hcheck

/-- The steps of a construction give no members to any enum that was there but the one under
construction. -/
theorem Leads.enrolls {P : List TypeId → Prop}
    (h : Leads env check template (some t) floor s known s' P) :
    s.types.Enrolls (some t) s'.types :=
  (enrolls_stepwise (some t)).ofLeads
    { hcheck with related := fun hrun => (hcheck.related hrun).mono (some t) }
    (fun {id _ _ _} hown _ hamended => by
      cases hown
      exact .amend hamended)
    (fun _ _ _ => .refl _ _) h

theorem Completes.enrolls (h : Completes env check template t floor s s₁ s' known) :
    s.types.Enrolls (some t) s'.types := by
  obtain ⟨finish, hfin, -⟩ := h.finished
  rw [hfin.types]
  exact h.filled.enrolls hcheck

/-- Each member that is checked belongs to the enum from then on, and the enum gets no others. -/
theorem checkEnumMember_belongs (hwf : env.tree.WellFormed) {parts : EnumMemberNode} {id : TypeId}
    (ht : s.types.Has t) (hrun : checkEnumMember check t node parts env s = some (id, s')) :
    s.types.Grows s'.types ∧ s'.types.name? id = some parts.name ∧
      ∀ {other}, s'.types.Belongs other t ↔ s.types.Belongs other t ∨ other = id := by
  obtain ⟨value, s₁, hvalue, hrun⟩ := run_bind.mp hrun
  obtain ⟨decorators, s₂, hdecs, hrun⟩ := run_bind.mp hrun
  simp only [addType_bind] at hrun
  obtain ⟨_, hfinish, rfl⟩ := run_bind_pure.mp hrun
  have hvalued : s.types.Enrolls none s₁.types := by
    rcases checkEnumValue_cases hvalue with rfl | ⟨n, u, -, hchk⟩
    · exact .refl _ _
    · exact hcheck.related hchk
  have hleads : Leads env check _ none 0 s₁ [] s₂ _ := checkDecorators_leads hwf rfl hdecs
  have hbefore := hvalued.trans ((enrolls_stepwise none).ofWork hcheck hleads)
  have htypes := (finishType_decorated hfinish).types
  have hgrows := hbefore.frozen.grows
  rw [htypes]
  refine ⟨hgrows.trans (.push _ _), ?_, fun {other} => ?_⟩
  · rw [TypeTable.name?]
    exact congrArg (Option.bind · TypeShape.name?) (shape?_push_nextId _)
  · refine Enrolls.belongs_push.trans (or_congr ⟨fun hold => ?_, fun hold => ?_⟩ ?_)
    · exact (hbefore.joined hold ht).resolve_right (by simp)
    · exact hold.grows hgrows
    · simp

/-- The members that are checked are those that the enum gets, and have different names. -/
theorem checkEnumMembers_belongs (hwf : env.tree.WellFormed) {seen : List String}
    (ht : s.types.Has t) (hrun : checkEnumMembers check t places seen env s = some (members, s')) :
    s.types.Grows s'.types ∧ (members.map s'.types.name?).Nodup ∧
      (∀ id ∈ members, ∃ name, s'.types.name? id = some name ∧ name ∉ seen) ∧
      ∀ {other}, s'.types.Belongs other t ↔ s.types.Belongs other t ∨ other ∈ members := by
  induction places generalizing s seen members with
  | nil =>
    obtain ⟨rfl, rfl⟩ := run_pure.mp hrun
    exact ⟨.refl _, nodup_nil, by simp, by simp⟩
  | cons place places ih =>
    simp only [checkEnumMembers, getTree_bind] at hrun
    replace hrun := run_chosen hrun
    split at hrun
    next parts hkind =>
      split at hrun <;> rename_i hseen
      · obtain ⟨_, s₁, hreport, hrun⟩ := run_bind.mp hrun
        have htypes := (report_quiet hreport).types
        rw [← htypes] at ht ⊢
        exact ih ht hrun
      · obtain ⟨id, s₁, hfirst, hrun⟩ := run_bind.mp hrun
        obtain ⟨rest, hrest, rfl⟩ := run_bind_pure.mp hrun
        obtain ⟨hgrows, hname, hbelongs⟩ := checkEnumMember_belongs hcheck hwf ht hfirst
        obtain ⟨hgrows', hnodup, hnames, hbelongs'⟩ := ih (hgrows.has ht) hrest
        have hname' := hgrows'.name hname
        refine ⟨hgrows.trans hgrows', ?_, ?_, fun {other} => ?_⟩
        · rw [map_cons, nodup_cons, hname']
          refine ⟨fun hmem => ?_, hnodup⟩
          obtain ⟨other, hother, heq⟩ := mem_map.mp hmem
          obtain ⟨name, hsame, hfresh⟩ := hnames other hother
          rw [hsame, Option.some.injEq] at heq
          simp [heq] at hfresh
        · refine forall_mem_cons.mpr ⟨⟨parts.name, hname', hseen⟩, fun other hother => ?_⟩
          obtain ⟨name, hsame, hfresh⟩ := hnames other hother
          exact ⟨name, hsame, fun hmem => hfresh (.tail _ hmem)⟩
        · rw [hbelongs', hbelongs, mem_cons, or_assoc]
    · exact ih ht hrun

/-- When an enum is complete it lists its members. -/
theorem Enumerates.enrolled (hwf : env.tree.WellFormed)
    (hshape : s.types.shape? t = some (.enumType e)) (hempty : e.members = [])
    (hnone : ∀ {id}, ¬ s.types.Belongs id t) (h : Enumerates env check places t s s₁ s' members)
    (he' : s'.types.enum? t = some e') : s'.types.Enrolled t e'.members := by
  obtain ⟨-, hnodup, -, hbelongs⟩ := checkEnumMembers_belongs hcheck hwf
    (has_of_shape hshape) h.checked
  have hframe : Frame none s s₁ := checkEnumMembers_frame hwf hcheck.framed h.checked
  have henum : s₁.types.shape? t = some (.enumType e) := hframe.shape (by simp) hshape rfl
  have hlisted : s₁.types.Enrolled t members :=
    ⟨fun {id} => by rw [hbelongs, or_iff_right hnone], hnodup⟩
  have hamended {shape} (hcurrent : s₁.types.shape? t = some shape) :=
    TypeShape.Amended.enroll s₁.types members t hempty shape (henum.symm.trans hcurrent)
  rw [h.finished.types] at he' ⊢
  have hfilled : (s₁.types.modifyEnum t fun e => { e with members }).shape? t =
      some (.enumType { e with members }) := by
    rw [TypeTable.modifyEnum, shape?_modifyShape, if_pos rfl, henum]
    rfl
  obtain rfl := TypeShape.enumType.inj (Option.mem_unique hfilled (enum?_eq_some_iff.mp he'))
  exact hlisted.grows (.modifyShape fun hcurrent => (hamended hcurrent).grown)
    (Enrolls.belongs_amended hamended)

end

theorem Filled.enrolls (h : Filled s s') : s.types.Enrolls own s'.types := by
  obtain rfl | ⟨id, f, hf, rfl⟩ := h
  · exact .refl _ _
  · exact .fill id hf

theorem Closed.enrolls {isTemplate instantiating : Bool}
    (h : Closed env.tree node key t isTemplate instantiating s s') :
    s.types.Enrolls own s'.types := by
  cases h with
  | instantiated => exact .refl _ _
  | @declared _ s₁ heq =>
    have hlisted : Filled (s.declare (s.bindings.symbolOf? node) t t isTemplate key) s₁ :=
      heq ▸ State.enlist_filled _ _ _ _
    rw [← s.types_declare (s.bindings.symbolOf? node) t t isTemplate key]
    exact hlisted.enrolls

/-- All enums that a check makes list exactly their members. -/
theorem enrolls_evolution (hwf : env.tree.WellFormed) :
    Evolution env fun s s' => s.types.Enrolls none s'.types where
  toStepwise := enrolls_stepwise none
  construct := fun {check node s s₁ s₂ s' key stub marks} hcheck _ _ hkey _ _ hbuilt hclosed => by
    obtain ⟨_, hcomps⟩ := hbuilt.completes hwf hcheck.framed
    have hbuilding := hcomps.enrolls hcheck
    refine hkey.trans ((Enrolls.construct (fun m => ?_) hbuilding ?_).trans hclosed.enrolls)
    · cases hbuilt <;> simp
    · intro e _ he
      obtain ⟨shape, hshape, hgrown⟩ := hbuilding.frozen.grows.shape (opened_shape node key stub marks)
      obtain rfl := Option.mem_unique hshape (enum?_eq_some_iff.mp he)
      cases hbuilt <;> cases hgrown
  expression := fun {check node s s₁ members} hcheck hkind hmems => by
    have hbuilding := (checkExpression_leads hwf hcheck.framed hkind hmems).enrolls hcheck
    refine Enrolls.construct (by simp) hbuilding ?_
    intro e _ he
    obtain ⟨shape, hshape, hgrown⟩ := hbuilding.frozen.grows.shape
      (shape?_push_nextId ⟨some node, .model .anonymous⟩)
    obtain rfl := Option.mem_unique hshape (enum?_eq_some_iff.mp he)
    cases hgrown
  enum := fun {check node s s₁ s₂ s₃ counted parts e members} hcheck _ _ hbefore _ hempty henumerates
      hcomps => by
    have hbuilding := hcomps.enrolls hcheck
    rw [State.entered, State.types_declare] at hbuilding
    refine hbefore.trans ((Enrolls.construct (by simp) hbuilding fun {e'} hanchored he' => ?_
      ).trans (State.enlist_filled _ _ _ _).enrolls)
    refine henumerates.enrolled hcheck hwf (entered_shape _ _) hempty (fun {id} hid => ?_) he'
    -- No member can belong to an enum that is not there yet.
    rw [State.entered, State.types_declare] at hid
    rcases Enrolls.belongs_push.mp hid with hid | ⟨-, m, hm, -⟩
    · exact not_has_nextId (hanchored hid)
    · simp at hm
  operation := fun {node s s₁ s₂ parts operation} _ _ _ _ hbefore _ hfin => by
    have hadded : s₁.types.Enrolls none s₂.types := hfin.types ▸ .push (by simp) (by simp)
    refine hbefore.trans (hadded.trans ?_)
    rw [← s₂.types_declare (s₂.bindings.symbolOf? node) s₁.types.nextId s₁.types.nextId false []]
    exact (State.enlist_filled _ _ _ _).enrolls
  aliased := fun {check node s s₁ s₂ t parts key} hcheck _ _ hkey hvalue => by
    have hvalued := hcheck.related hvalue
    have hchk := hkey.trans hvalued
    dsimp only [State.closeAlias]
    split
    · exact hchk
    · rwa [State.types_declare]
  contents := fun {check node s s₁ s₂ s' t parts decorators} hcheck _ htype _ hbefore hdec
      hvisits => by
    have hfilled : s₁.types.Enrolls none s₂.types :=
      hdec.types ▸ .fill t fun n => .decorate n decorators
    exact hbefore.trans (hfilled.trans ((enrolls_stepwise none).ofVisits hcheck hvisits))

end Checking

end ApiSchema
