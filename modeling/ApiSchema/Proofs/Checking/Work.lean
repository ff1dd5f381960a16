import ApiSchema.Proofs.Checking.Step
import ApiSchema.Proofs.Types.BaseChain
import Mathlib.Data.List.ReduceOption

/-!
# Computations are made of steps

This module shows of the parts of the checker, one after the other, that a run of them is work in
the sense of `Work`, and which types are known after it. Later proofs about checking need not go
through these computations again: they say what a single step does.
-/

namespace ApiSchema

open TypeShape List

variable {other t : TypeId} {n m target node : NodeId} {others ts seen known' : List TypeId}
  {shape : TypeShape} {arguments nodes options values : List NodeId} {message : Message}

namespace TypeTable

variable {types : TypeTable} {id : TypeId}

/-- The models of a base chain are reached. -/
theorem reaches_of_mem_baseChainFrom {length : Nat}
    (h : other ∈ types.baseChainFrom length seen id) : types.Reaches id other := by
  refine Relation.ReflTransGen.mono (fun id base hext => ?_) _ _ (extends_of_mem_baseChainFrom h)
  obtain ⟨m, hm, hbase⟩ := hext
  exact ⟨_, model?_eq_some_iff.mp hm, by simp [links, hbase]⟩

/-- A model refers to its own properties. -/
theorem refers_of_mem_ownProperties (h : other ∈ types.ownProperties id) :
    types.Refers id other := by
  cases hm : types.model? id with
  | none => simp [ownProperties, hm] at h
  | some m =>
    rw [ownProperties, hm] at h
    have hvalue : other ∈ m.properties.values := h
    exact ⟨_, model?_eq_some_iff.mp hm, by simp [links, hvalue]⟩

/-- Inherited properties are reached. -/
theorem reaches_of_mem_inheritedProperties (h : other ∈ types.inheritedProperties id) :
    types.Reaches id other := by
  obtain ⟨model, hmodel, hother⟩ := mem_flatMap.mp h
  exact (reaches_of_mem_baseChainFrom hmodel).tail (refers_of_mem_ownProperties hother)

end TypeTable

namespace Checking

variable {α β : Type} {env : Environment} {check : Check} {template : Option NodeId}
  {own : Option TypeId} {floor : Nat} {s s' s₁ : State} {known : List TypeId}
  {P Q : List TypeId → Prop} {id : TypeId} {finish : Bool} {xs : List α}

/-- There is work that leads from one state to another, after which the known types are as
described. -/
def Leads (env : Environment) (check : Check) (template : Option NodeId) (own : Option TypeId)
    (floor : Nat) (s : State) (known : List TypeId) (s' : State) (P : List TypeId → Prop) : Prop :=
  ∃ known', Work env check template own floor ⟨s, known⟩ ⟨s', known'⟩ ∧ P known'

namespace Leads

/-- Nothing is to be done. -/
theorem done (h : P known) : Leads env check template own floor s known s P := ⟨known, .refl _, h⟩

/-- One step is work. -/
theorem step (h : Step env check template own floor ⟨s, known⟩ ⟨s', known'⟩) (hP : P known') :
    Leads env check template own floor s known s' P :=
  ⟨known', .single h, hP⟩

theorem bind (h : Leads env check template own floor s known s₁ P)
    (h' : ∀ known₁, known ⊆ known₁ → P known₁ → Leads env check template own floor s₁ known₁ s' Q) :
    Leads env check template own floor s known s' Q := by
  obtain ⟨known₁, hwork, hP⟩ := h
  obtain ⟨known₂, hwork', hQ⟩ := h' known₁ hwork.known_subset hP
  exact ⟨known₂, hwork.trans hwork', hQ⟩

section

variable (hcheck : Framed env check) (h : Leads env check template own floor s known s' P)

include hcheck h

/-- Work stays in the frame. -/
theorem frame :
    Frame own s s' := by
  obtain ⟨known', hwork, -⟩ := h
  exact hwork.frame hcheck

/-- A type under way stays so. -/
theorem underway (hway : Underway floor template finish s) :
    Underway floor template finish s' :=
  hway.frame (h.frame hcheck)

/-- The table does not shrink. -/
theorem floor_le (hfloor : floor ≤ s.types.size) : floor ≤ s'.types.size :=
  Nat.le_trans hfloor (h.frame hcheck).grows.size_le

end

theorem call (hn : env.tree.templateDeclarationOf? n = template) (h : check n env s = some (t, s')) :
    Leads env check template own floor s known s' (t ∈ ·) :=
  .step (.call hn h) mem_cons_self

/-- What is reached from a known type becomes known. -/
theorem reach (hid : id ∈ known) (h : s.types.Reaches id other) :
    Leads env check template own floor s known s (other ∈ ·) := by
  induction h with
  | refl => exact .done hid
  | tail _ hlast ih =>
    exact ih.bind fun known₁ _ hmem => .step (.look hmem hlast) mem_cons_self

/-- So does everything that is reached from it. -/
theorem reachAll (hid : id ∈ known) (h : ∀ other ∈ others, s.types.Reaches id other) :
    Leads env check template own floor s known s (others ⊆ ·) := by
  induction others generalizing known with
  | nil => exact .done (nil_subset _)
  | cons other others ih =>
    refine (reach hid (h other (.head _))).bind fun known₁ hsub hother => ?_
    refine (ih (hsub hid) fun x hx => h x (.tail _ hx)).bind fun known₂ hsub₂ hothers => .done ?_
    exact cons_subset.mpr ⟨hsub₂ hother, hothers⟩

/-- A type is added that is complete, and its decorators are run unless it is open. -/
theorem push (node : Option NodeId)
    (hplain : shape.isPlain = true)
    (hincid : (⟨node, shape⟩ : TypeRecord).Incidental env.tree) (hlinks : shape.links ⊆ known)
    (hfounded : Founded s known own ⟨node, shape⟩)
    (hfin : Finished finish s.types.nextId (s.addRow ⟨node, shape⟩) s')
    (hready : finish = true → Ready floor template (s.addRow ⟨node, shape⟩)) :
    Leads env check template own floor s known s' (s.types.nextId ∈ ·) :=
  .step (.push node hplain hincid hlinks hfounded hfin hready) mem_cons_self

/-- A type is added that has no decorators and stands in no other type. -/
theorem add (node : Option NodeId) (hbare : shape.isBare = true) (hlinks : shape.links ⊆ known) :
    Leads env check template own floor s known (s.addRow ⟨node, shape⟩) (s.types.nextId ∈ ·) := by
  have hplain : shape.isPlain = true := by cases shape <;> simp_all [isBare]
  have hundecl : shape.isDeclared = false := by
    cases shape <;> simp_all [isBare, isDeclared]
  have hunfinished : false = true → Ready floor template (s.addRow ⟨node, shape⟩) := by simp
  exact .push node hplain (.of_isDeclared hundecl) hlinks (.of_isBare hbare) (.inl rfl)
    hunfinished

end Leads

/-! ### Rules for computations -/

/-- Every run of a computation is work, after which answer, state and known types are as
described. -/
def Works (env : Environment) (check : Check) (template : Option NodeId) (own : Option TypeId)
    (floor : Nat) (s : State) (known : List TypeId) (x : CheckM α)
    (Q : α → State → List TypeId → Prop) : Prop :=
  ∀ ⦃a : α⦄ ⦃s' : State⦄, x env s = some (a, s') →
    Leads env check template own floor s known s' (Q a s')

namespace Works

variable {x : CheckM α} {f : α → CheckM β} {a : α} {P : α → State → List TypeId → Prop}
  {Q : β → State → List TypeId → Prop}

/-- A given answer takes no work. -/
theorem pure (h : P a s known) : Works env check template own floor s known (Pure.pure a) P :=
  fun _ _ hrun => by
    obtain ⟨rfl, rfl⟩ := run_pure.mp hrun
    exact .done h

theorem bind (hx : Works env check template own floor s known x P)
    (hf : ∀ {a s₁ known₁}, Work env check template own floor ⟨s, known⟩ ⟨s₁, known₁⟩ →
      P a s₁ known₁ → Works env check template own floor s₁ known₁ (f a) Q) :
    Works env check template own floor s known (x >>= f) Q := fun _ _ hrun => by
  obtain ⟨a, s₁, hfirst, hrest⟩ := run_bind.mp hrun
  obtain ⟨known₁, hwork, hP⟩ := hx hfirst
  obtain ⟨known₂, hwork', hQ⟩ := hf hwork hP hrest
  exact ⟨known₂, hwork.trans hwork', hQ⟩

/-- Reading the state takes no work. -/
theorem get_bind {f : State → CheckM β}
    (hf : Works env check template own floor s known (f s) Q) :
    Works env check template own floor s known (get >>= f) Q := hf

/-- Nor does reading the types. -/
theorem getTypes_bind {f : TypeTable → CheckM β}
    (hf : Works env check template own floor s known (f s.types) Q) :
    Works env check template own floor s known (getTypes >>= f) Q := hf

/-- Nor does reading the tree. -/
theorem getTree_bind {f : Tree → CheckM β}
    (hf : Works env check template own floor s known (f env.tree) Q) :
    Works env check template own floor s known (getTree >>= f) Q := hf

/-- Nor does asking whether a type is to be finished. -/
theorem shouldFinish_bind {f : Bool → CheckM β}
    (hf : Works env check template own floor s known (f (s.shouldFinish env.tree node)) Q) :
    Works env check template own floor s known (shouldFinish node >>= f) Q := hf

/-- The description may be weakened. -/
theorem imp {Q : α → State → List TypeId → Prop}
    (h : Works env check template own floor s known x P)
    (hPQ : ∀ {a s₁ known₁}, Work env check template own floor ⟨s, known⟩ ⟨s₁, known₁⟩ →
      P a s₁ known₁ → Q a s₁ known₁) : Works env check template own floor s known x Q :=
  fun _ _ hrun => by
    obtain ⟨known₁, hwork, hP⟩ := h hrun
    exact ⟨known₁, hwork, hPQ hwork hP⟩

/-- What is known of all runs may be added. -/
theorem also {R : α → State → Prop} (h : Works env check template own floor s known x P)
    (hR : ∀ {a s₁}, x env s = some (a, s₁) → R a s₁) :
    Works env check template own floor s known x fun a s₁ k => P a s₁ k ∧ R a s₁ :=
  fun _ _ hrun => by
    obtain ⟨known₁, hwork, hP⟩ := h hrun
    exact ⟨known₁, hwork, hP, hR hrun⟩

/-- First something is found out by a run that only reports. -/
theorem quiet_bind {R : α → Prop} (hx : ∀ {a s₁}, x env s = some (a, s₁) → Quiet s s₁ ∧ R a)
    (hf : ∀ {a s₁}, Quiet s s₁ → R a → Works env check template own floor s₁ known (f a) Q) :
    Works env check template own floor s known (x >>= f) Q := fun _ _ hrun => by
  obtain ⟨a, s₁, hfirst, hrest⟩ := run_bind.mp hrun
  obtain ⟨hquiet, hR⟩ := hx hfirst
  obtain ⟨known₁, hwork, hQ⟩ := hf hquiet hR hrest
  exact ⟨known₁, (Work.single (.quiet hquiet)).trans hwork, hQ⟩

/-- A report is a step. -/
theorem report_bind {f : Unit → CheckM β} {arguments : List String} {node : Option NodeId}
    (hf : ∀ {s₁}, Quiet s s₁ → Works env check template own floor s₁ known (f ()) Q) :
    Works env check template own floor s known (report message arguments node >>= f) Q :=
  quiet_bind (fun hrun => ⟨report_quiet hrun, trivial⟩) fun hquiet _ => hf hquiet

theorem call (hn : env.tree.templateDeclarationOf? n = template) :
    Works env check template own floor s known (check n) fun t _ k => t ∈ k :=
  fun _ _ hrun => .call hn hrun

/-- The error type is known. -/
theorem error : Works env check template own floor s known (Pure.pure TypeTable.errorType)
    fun t _ k => t ∈ k := fun _ _ hrun => by
  obtain ⟨rfl, rfl⟩ := run_pure.mp hrun
  exact .step (.error _ _) mem_cons_self

/-- A change of the state that is a step is work. -/
theorem modify {f : State → State}
    (h : Step env check template own floor ⟨s, known⟩ ⟨f s, known⟩) :
    Works env check template own floor s known (modify f) fun _ _ _ => True := fun _ _ hrun => by
  obtain rfl := run_modify.mp hrun
  exact .step h trivial

/-- What is reached from a known type may become known before a computation. -/
theorem reachAll (others : List TypeId) (hid : id ∈ known)
    (h : ∀ other ∈ others, s.types.Reaches id other)
    (hx : ∀ {known₁}, known ⊆ known₁ → others ⊆ known₁ →
      Works env check template own floor s known₁ x P) :
    Works env check template own floor s known x P := fun _ _ hrun =>
  (Leads.reachAll hid h).bind fun _ hsub hothers => hx hsub hothers hrun

/-- So may what a known type refers to. -/
theorem lookAll (hid : id ∈ known)
    (hshape : s.types.shape? id = some shape)
    (hx : ∀ {known₁}, known ⊆ known₁ → shape.links ⊆ known₁ →
      Works env check template own floor s known₁ x P) :
    Works env check template own floor s known x P :=
  reachAll _ hid (fun _ hother => .single ⟨shape, hshape, hother⟩) hx

/-- A type is added that is complete, and its decorators are run unless it is open. -/
theorem complete (node : Option NodeId)
    (hplain : shape.isPlain = true)
    (hincid : (⟨node, shape⟩ : TypeRecord).Incidental env.tree) (hlinks : shape.links ⊆ known)
    (hfounded : Founded s known own ⟨node, shape⟩)
    (hready : finish = true → Ready floor template (s.addRow ⟨node, shape⟩)) :
    Works env check template own floor s known
      (addType node shape >>= fun id => finishIf finish id >>= fun _ => Pure.pure id)
      fun t s' k => t ∈ k ∧ s'.types.shape? t = some shape := fun _ s' hrun => by
  simp only [addType_bind] at hrun
  obtain ⟨_, hfinish, rfl⟩ := run_bind_pure.mp hrun
  have hfin := finishIf_finished hfinish
  refine .step (.push node hplain hincid hlinks hfounded hfin hready) ⟨mem_cons_self, ?_⟩
  rw [hfin.types]
  exact TypeTable.shape?_push_nextId _

/-- A type is added that has no decorators and stands in no other type. -/
theorem add (node : Option NodeId) (hbare : shape.isBare = true)
    (hlinks : shape.links ⊆ known) :
    Works env check template own floor s known (addType node shape) fun t _ k => t ∈ k :=
  fun _ _ hrun => by
    obtain ⟨rfl, rfl⟩ := run_addType.mp hrun
    exact .add node hbare hlinks

/-- Computations for the items of a list, whose answers stay as described. -/
theorem mapM {R : β → List TypeId → Prop}
    (hR : ∀ {y : β} {k k' : List TypeId}, k ⊆ k' → R y k → R y k')
    (hf : ∀ x ∈ xs, ∀ {s₁ known₁}, Work env check template own floor ⟨s, known⟩ ⟨s₁, known₁⟩ →
      Works env check template own floor s₁ known₁ (f x) fun y _ k => R y k) :
    Works env check template own floor s known (xs.mapM f) fun ys _ k => ∀ y ∈ ys, R y k := by
  induction xs generalizing s known with
  | nil =>
    rw [mapM_nil]
    exact .pure (by simp)
  | cons x xs ih =>
    rw [mapM_cons]
    refine .bind (hf x (.head _) (.refl _)) fun hfirst hy => ?_
    refine .bind (ih fun x hx _ _ hlater => hf x (.tail _ hx) (hfirst.trans hlater))
      fun hrest hys => .pure ?_
    exact forall_mem_cons.mpr ⟨hR hrest.known_subset hy, hys⟩

/-- A loop with an invariant. -/
theorem foldlM {f : β → α → CheckM β} {b : β}
    (hf : ∀ x ∈ xs, ∀ {b s₁ known₁}, Work env check template own floor ⟨s, known⟩ ⟨s₁, known₁⟩ →
      Q b s₁ known₁ → Works env check template own floor s₁ known₁ (f b x) Q) (hb : Q b s known) :
    Works env check template own floor s known (xs.foldlM f b) Q := by
  induction xs generalizing s known b with
  | nil =>
    rw [foldlM_nil]
    exact .pure hb
  | cons x xs ih =>
    rw [foldlM_cons]
    refine .bind (hf x (.head _) (.refl _) hb) fun hfirst hd => ?_
    exact ih (fun x hx _ _ _ hlater => hf x (.tail _ hx) (hfirst.trans hlater)) hd

/-- A loop without answers. -/
theorem forM {f : α → CheckM PUnit}
    (hf : ∀ x ∈ xs, ∀ {s₁ known₁}, Work env check template own floor ⟨s, known⟩ ⟨s₁, known₁⟩ →
      Works env check template own floor s₁ known₁ (f x) fun _ _ _ => True) :
    Works env check template own floor s known (xs.forM f) fun _ _ _ => True := by
  induction xs generalizing s known with
  | nil => exact .pure trivial
  | cons x xs ih =>
    refine .bind (hf x (.head _) (.refl _)) fun hfirst _ => ?_
    exact ih fun x hx _ _ hlater => hf x (.tail _ hx) (hfirst.trans hlater)

/-- Nodes of the same template are checked one after the other. -/
theorem calls (hn : ∀ n ∈ nodes, env.tree.templateDeclarationOf? n = template) :
    Works env check template own floor s known (nodes.mapM check) fun ts _ k => ts ⊆ k :=
  .mapM (fun hsub ht => hsub ht) fun n hmem _ _ _ => .call (hn n hmem)

end Works

/-! ### Nodes in the same template -/

section

variable (hwf : env.tree.WellFormed)

include hwf

/-- The parts of a node stand in its template. -/
theorem inside_child {kind : NodeKind} (hkind : env.tree.kind? m = some kind)
    (hscope : kind.isScope = false) (hn : n ∈ kind.children)
    (hm : env.tree.templateDeclarationOf? m = template) :
    env.tree.templateDeclarationOf? n = template :=
  (hwf.templateDeclarationOf_child hkind hscope hn).trans hm

/-- So do its decorators. -/
theorem inside_decorator (hn : n ∈ env.tree.decorators m)
    (hkind : env.tree.kind? n = some (.decoratorExpression target arguments))
    (hm : env.tree.templateDeclarationOf? m = template) :
    env.tree.templateDeclarationOf? n = template := by
  rw [hwf.templateDeclarationOf_parent (hwf.parent_of_mem (Tree.mem_children_of_decorator hn))
    (Tree.templateParameters_of_kind hkind)]
  exact hm

/-! ### Decorators -/

omit hwf in
/-- The type of a decorator argument is known. -/
theorem checkArgument_leads (hn : env.tree.templateDeclarationOf? n = template) :
    Works env check template own floor s known (checkArgument check n)
      fun argument _ k => ∀ id ∈ argument.type?, id ∈ k := by
  refine .bind (.call hn) fun _ ht => .getTypes_bind (.pure fun id hid => ?_)
  rw [decoratorArgument] at hid
  split at hid <;> simp_all [DecoratorArgument.type?]

/-- So are the types of a decorator that is applied. -/
theorem checkDecoration_leads (hm : env.tree.templateDeclarationOf? m = template)
    (hn : n ∈ env.tree.decorators m) :
    Works env check template own floor s known (checkDecoration check n)
      fun answer _ k => ∀ application ∈ answer, decoratorTypes [application] ⊆ k := by
  refine .getTree_bind ?_
  split
  next target arguments hkind =>
    refine .quiet_bind (fun hrun => ⟨(resolveReference_visible hwf hrun).1, trivial⟩) fun _ _ => ?_
    split
    · exact .pure (by simp)
    · refine .get_bind ?_
      split
      · exact .pure (by simp)
      · split
        · have hin := inside_decorator hwf hn hkind hm
          refine .bind (.mapM (R := fun argument k => ∀ id ∈ argument.type?, id ∈ k)
            (fun hsub hall id hid => hsub (hall id hid)) fun x hx _ _ _ =>
              checkArgument_leads (inside_child hwf hkind rfl (.tail _ hx) hin))
            fun _ hall => .pure ?_
          intro application happlication id hid
          cases happlication
          simp only [decoratorTypes, flatMap_singleton, mem_filterMap] at hid
          obtain ⟨argument, harg, hid⟩ := hid
          exact hall argument harg id hid
        · exact .report_bind fun _ => .pure (by simp)
  · exact .pure (by simp)

/-- So are those of all decorators of a node. -/
theorem checkDecorators_leads (hm : env.tree.templateDeclarationOf? m = template) :
    Works env check template own floor s known (checkDecorators check m)
      fun applications _ k => decoratorTypes applications ⊆ k := by
  refine .getTree_bind (.bind
    (.mapM (R := fun answer k => ∀ application ∈ answer, decoratorTypes [application] ⊆ k)
      (fun hsub hall application h => List.Subset.trans (hall application h) hsub)
      fun n hn _ _ _ => checkDecoration_leads hwf hm hn) fun _ hall => .pure fun id hid => ?_)
  obtain ⟨application, happlication, hid⟩ := mem_flatMap.mp hid
  rw [mem_reverse, reduceOption_mem_iff] at happlication
  exact hall _ happlication application rfl (by simpa [decoratorTypes] using hid)

/-! ### Expressions -/

omit hwf in
/-- The options of an option are known. -/
theorem checkOption_leads (hn : env.tree.templateDeclarationOf? n = template) :
    Works env check template own floor s known (checkOption check n) fun ts _ k => ts ⊆ k := by
  refine .bind (.call hn) fun {t s₁ _} _ ht => .getTypes_bind ?_
  cases hunion : s₁.types.union? t with
  | none => exact .pure (by simpa using ht)
  | some options =>
    exact .lookAll ht (TypeTable.union?_eq_some_iff.mp hunion) fun _ hoptions => .pure hoptions

/-- All options of a union are known. -/
theorem checkOptions_leads (hkind : env.tree.kind? node = some (.unionExpression options))
    (hnode : env.tree.templateDeclarationOf? node = template) :
    Works env check template own floor s known (options.mapM (checkOption check))
      fun lists _ k => lists.flatten ⊆ k :=
  .imp (.mapM (R := fun ts k => ts ⊆ k) (fun hsub hts => List.Subset.trans hts hsub)
    fun n hn _ _ _ => checkOption_leads (inside_child hwf hkind rfl hn hnode))
    fun _ hts t ht => by
      obtain ⟨ts, hmem, ht⟩ := mem_flatten.mp ht
      exact hts ts hmem ht

/-- An array type is made of steps. -/
theorem checkArray_leads {element : NodeId}
    (hkind : env.tree.kind? node = some (.arrayExpression element))
    (hnode : env.tree.templateDeclarationOf? node = template) :
    Works env check template own floor s known (checkArray check node element) fun t _ k => t ∈ k :=
  .bind (.call (inside_child hwf hkind rfl (.head _) hnode)) fun _ hu =>
    .add _ rfl (by simpa [links] using hu)

/-- So is a tuple type. -/
theorem checkTuple_leads (hkind : env.tree.kind? node = some (.tupleExpression values))
    (hnode : env.tree.templateDeclarationOf? node = template) :
    Works env check template own floor s known (checkTuple check node values) fun t _ k => t ∈ k :=
  .bind (.calls fun _ hn => inside_child hwf hkind rfl hn hnode) fun _ hts => .add _ rfl hts

omit hwf in
/-- What is visible depends on the bindings and on the merged symbols. -/
theorem State.Visible.congr {id : SymbolId} (h : s.Visible env.tree node id)
    (hbinds : s'.bindings = s.bindings) (hmerged : s'.mergedSymbols = s.mergedSymbols) :
    s'.Visible env.tree node id := by
  have hat : ({ s with bindings := s'.bindings, mergedSymbols := s'.mergedSymbols } :
      State).Visible env.tree node id := by
    rw [hbinds, hmerged]
    exact h
  exact hat

/-- A reference is a step after those of its arguments. -/
theorem checkTypeReference_leads (hcheck : Framed env check)
    (hkind : env.tree.kind? node = some (.typeReference target arguments))
    (hnode : env.tree.templateDeclarationOf? node = template) :
    Works env check template own floor s known (checkTypeReference check node target arguments)
      fun t _ k => t ∈ k := by
  refine .quiet_bind (fun hrun => resolveReference_visible hwf hrun) fun hquiet hvisible => ?_
  split
  · exact .error
  next id =>
    refine .get_bind ?_
    split
    · exact .error
    next symbol hsym =>
      split
      · exact .report_bind fun _ => .error
      next hnot =>
        split
        next hundecl =>
          exact .bind (.modify (.raise hsym (by simpa using hnot) hundecl)) fun _ _ => .error
        next declaration hdecl =>
          refine .bind (.calls fun n hn =>
            inside_child hwf hkind rfl (.tail _ hn) hnode) fun hwork hgiven _ _ h => ?_
          have hframe := hwork.frame hcheck
          refine .step (.refer ⟨hnode, ?_, ?_, hdecl⟩ hgiven h) mem_cons_self
          · have htarget := hwf.templateDeclarationOf_child hkind rfl
              (show target ∈ (NodeKind.typeReference target arguments).children from
                mem_cons_self)
            have hat : s.Visible env.tree node id := (hvisible id rfl).imp_left
              fun ⟨place, key, hplace, hfound⟩ => ⟨place, key, hplace.trans htarget, hfound⟩
            refine hat.congr ?_ ?_
            · rw [hframe.bindings, hquiet.bindings]
            · rw [hframe.mergedSymbols, hquiet.eq]
          · rw [hframe.bindings]
            exact hsym

end

end Checking

end ApiSchema
