import ApiSchema.Proofs.Checking.Answers
import ApiSchema.Proofs.Checking.Coherence
import ApiSchema.Proofs.Checking.Nesting

/-!
# Coherence in the middle of checks

A check that begins in a coherent state ends in one. The checks that are nested in it also begin in
coherent states. To see this, let every check that begins in an incoherent state leave a mark: a
type whose name is made of itself. The mark is never removed, since names are made once and for all,
and after it is left every check has an answer. So a check with a marked one among those nested in
it would end, and in an incoherent state.
-/

namespace ApiSchema

namespace TypeTable

variable {types types' types'' : TypeTable}

/-- The second table has all types of the first one, under the same names. -/
def KeepsNames (types types' : TypeTable) : Prop :=
  ∀ id shape, types.shape? id = some shape →
    ∃ shape', types'.shape? id = some shape' ∧ shape'.nameParts = shape.nameParts

theorem KeepsNames.refl (types : TypeTable) : types.KeepsNames types :=
  fun _ shape hshape => ⟨shape, hshape, rfl⟩

theorem KeepsNames.trans (h : types.KeepsNames types') (h' : types'.KeepsNames types'') :
    types.KeepsNames types'' := by
  intro id shape hshape
  obtain ⟨shape', hshape', heq⟩ := h id shape hshape
  obtain ⟨shape'', hshape'', heq'⟩ := h' id shape' hshape'
  exact ⟨shape'', hshape'', heq'.trans heq⟩

theorem Grows.keepsNames (h : types.Grows types') : types.KeepsNames types' := by
  intro id shape hshape
  obtain ⟨shape', hshape', hgrown⟩ := h.shape hshape
  exact ⟨shape', hshape', hgrown.nameParts⟩

theorem KeepsNames.modifyShape (id : TypeId) {f : TypeShape → TypeShape}
    (hf : ∀ shape, (f shape).nameParts = shape.nameParts) :
    types.KeepsNames (types.modifyShape id f) := by
  intro other shape hshape
  rw [shape?_modifyShape]
  split
  · exact ⟨f shape, by rw [hshape, Option.map_some], hf shape⟩
  · exact ⟨shape, hshape, rfl⟩

/-- If names are made of older types, then they always were. -/
theorem Layered.before (h : types'.Layered) (hkeeps : types.KeepsNames types') : types.Layered := by
  intro id shape hshape part hpart
  obtain ⟨shape', hshape', heq⟩ := hkeeps id shape hshape
  exact h id shape' hshape' part (heq ▸ hpart)

end TypeTable

namespace Checking

variable {α β : Type} {env : Environment} {check other : Check} {node inner : NodeId}
  {s s' : State}

/-! ### Probes -/

/-- The first computation keeps names. It has an answer where names are not made of older types, and
where the second one has; as long as names are made of older types in the end, it is the same
one. -/
structure Probes (env : Environment) (m m' : CheckM α) : Prop where
  keeps {s : State} {a : α} {s' : State} : m env s = some (a, s') → s.types.KeepsNames s'.types
  ends {s : State} : ¬ s.types.Layered → ∃ a s', m env s = some (a, s')
  follows {s : State} {b : α} {t : State} : m' env s = some (b, t) → ∃ a s', m env s = some (a, s')
  same {s : State} {a : α} {s' : State} : m env s = some (a, s') → s'.types.Layered →
    m' env s = some (a, s')

namespace Probes

/-- A computation that always ends probes itself if it keeps names. -/
theorem ofEnds {m : CheckM α} (hends : Ends env m)
    (hkeeps : ∀ {s a s'}, m env s = some (a, s') → s.types.KeepsNames s'.types) : Probes env m m where
  keeps := hkeeps
  ends _ := hends _
  follows _ := hends _
  same hrun _ := hrun

theorem pure (a : α) : Probes env (Pure.pure a) (Pure.pure a) :=
  .ofEnds (.pure a) fun hrun => (run_pure.mp hrun).2 ▸ .refl _

theorem modify {f : State → State} (hf : ∀ s : State, s.types.KeepsNames (f s).types) :
    Probes env (modify f : CheckM PUnit) (modify f) :=
  .ofEnds (.modify f) fun hrun => run_modify.mp hrun ▸ hf _

/-- Sequences are probed in order. -/
theorem bind {m m' : CheckM α} {f f' : α → CheckM β} (hm : Probes env m m')
    (hf : ∀ a, Probes env (f a) (f' a)) : Probes env (m >>= f) (m' >>= f') where
  keeps hrun := by
    obtain ⟨a, s₁, hfirst, hrest⟩ := run_bind.mp hrun
    exact (hm.keeps hfirst).trans ((hf a).keeps hrest)
  ends hnot := by
    obtain ⟨a, s₁, hfirst⟩ := hm.ends hnot
    obtain ⟨b, s₂, hrest⟩ := (hf a).ends fun hlayered => hnot (hlayered.before (hm.keeps hfirst))
    exact ⟨b, s₂, run_bind.mpr ⟨a, s₁, hfirst, hrest⟩⟩
  follows hrun := by
    obtain ⟨a', s₁', hfirst', hrest'⟩ := run_bind.mp hrun
    obtain ⟨a, s₁, hfirst⟩ := hm.follows hfirst'
    -- If the first part leaves a mark, the rest has an answer; if not, both are in the same state.
    have hrest : ∃ b s₂, f a env s₁ = some (b, s₂) := by
      by_cases hlayered : s₁.types.Layered
      · obtain ⟨rfl, rfl⟩ := Prod.mk.inj (Option.mem_unique (hm.same hfirst hlayered) hfirst')
        exact (hf a).follows hrest'
      · exact (hf a).ends hlayered
    obtain ⟨b, s₂, hrest⟩ := hrest
    exact ⟨b, s₂, run_bind.mpr ⟨a, s₁, hfirst, hrest⟩⟩
  same hrun hlayered := by
    obtain ⟨a, s₁, hfirst, hrest⟩ := run_bind.mp hrun
    have hbefore := hlayered.before ((hf a).keeps hrest)
    exact run_bind.mpr ⟨a, s₁, hm.same hfirst hbefore, (hf a).same hrest hlayered⟩

/-- What a computation does next may depend on what it finds out about the state. -/
theorem look_bind {γ : Type} {x : CheckM γ} {look : State → γ} {f f' : γ → CheckM β}
    (hx : ∀ (g : γ → CheckM β) s, (x >>= g) env s = g (look s) env s)
    (hf : ∀ c, Probes env (f c) (f' c)) : Probes env (x >>= f) (x >>= f') where
  keeps hrun := (hf _).keeps (hx f _ ▸ hrun)
  ends hnot := by
    rw [hx]
    exact (hf _).ends hnot
  follows hrun := by
    rw [hx]
    exact (hf _).follows (hx f' _ ▸ hrun)
  same hrun hlayered := by
    rw [hx]
    exact (hf _).same (hx f _ ▸ hrun) hlayered

theorem report (message : Message) (arguments : List String) (place : Option NodeId) :
    Probes env (report message arguments place) (report message arguments place) :=
  .ofEnds (report_ends _ _ _) fun hrun => (report_quiet hrun).types ▸ .refl _

theorem addType (place : Option NodeId) (shape : TypeShape) :
    Probes env (addType place shape) (addType place shape) := by
  refine .ofEnds (fun s => ⟨_, _, run_addType.mpr ⟨rfl, rfl⟩⟩) fun hrun => ?_
  rw [(run_addType.mp hrun).2]
  exact (TypeTable.Grows.push _ _).keepsNames

end Probes

/-- All constructs are probed if the checks that they call for are. -/
def Probes.rules (hwf : env.tree.WellFormed) : ModelRules env.tree where
  holds := Probes env
  pure := .pure
  bind := .bind
  look _ _ hf := .look_bind (fun _ _ => rfl) hf
  getTypes_bind hf := .look_bind (fun _ _ => rfl) hf
  getTree_bind hf := ⟨hf.keeps, hf.ends, hf.follows, hf.same⟩
  shouldFinish_bind _ hf := .look_bind (fun _ _ => rfl) hf
  report arguments place _ := .report _ arguments place
  resolveReference _ _ := .ofEnds (resolveReference_ends hwf _ _) fun hrun =>
    (run_resolveReference hrun).2.types ▸ .refl _
  internalError _ := .bind (.modify fun _ => .refl _) fun _ => .pure _
  aside hg := .modify fun s => by
    rw [hg.only]
    exact .refl _
  amend id _ _ hname := .modify fun _ => .modifyShape id hname
  addType place shape _ _ := .addType place shape
  runDecorator _ _ := .ofEnds (runDecorator_ends _ _) fun hrun =>
    (runDecorator_decorated hrun).types ▸ .refl _
  declare _ _ _ _ _ _ := .modify fun s => by
    rw [State.types_declare]
    exact .refl _
  detour hg := .modify fun s => by
    rw [hg.only]
    exact .refl _
  instantiated _ _ _ _ := .modify fun _ => .refl _
  pend _ _ _ := .modify fun _ => .refl _
  unpend _ _ := .modify fun _ => .refl _
  addModel _ _ := .addType _ _
  declareModel _ _ _ _ := .modify fun s => by
    rw [State.types_declare]
    exact .refl _
  pendModel _ _ _ := .modify fun _ => .refl _
  unpendModel _ _ := .modify fun _ => .refl _

theorem checkStep_probes (hwf : env.tree.WellFormed)
    (hcheck : ∀ n, Probes env (check n) (other n)) (node : NodeId) :
    Probes env (checkStep check node) (checkStep other node) := by
  refine (Probes.rules hwf).checkStep hcheck fun parts hkind type => (Probes.rules hwf).buildModel
    Probes.report (fun model base => .modify fun s => .modifyShape model fun shape => ?_) type hkind
      fun n _ => hcheck n
  cases shape <;> rfl

/-! ### Marks -/

/-- The state with a type whose name is made of itself, and a model. -/
def State.mark (s : State) : State :=
  (s.addRow ⟨none, .array s.types.nextId⟩).addRow ⟨none, .model .anonymous⟩

/-- A mark stays recognizable. -/
theorem mark_not_layered (s : State) : ¬ s.mark.types.Layered := by
  intro h
  have hfirst : (s.addRow ⟨none, .array s.types.nextId⟩).types.Layered :=
    h.before (TypeTable.Grows.push _ _).keepsNames
  exact Nat.lt_irrefl _ (hfirst _ _ (TypeTable.shape?_push_nextId _) s.types.nextId
    List.mem_cons_self)

open Classical in
/-- The check that leaves a mark instead where the state is not coherent. -/
noncomputable def marking (check : Check) : Check := fun node env s =>
  if s.Coherent then check node env s
  else some ((s.addRow ⟨none, .array s.types.nextId⟩).types.nextId, s.mark)

theorem marking_of_coherent (hs : s.Coherent) : marking check node env s = check node env s :=
  if_pos hs

theorem marking_of_not_coherent (hs : ¬ s.Coherent) : marking check node env s =
    some ((s.addRow ⟨none, .array s.types.nextId⟩).types.nextId, s.mark) :=
  if_neg hs

theorem marking_framed (h : Framed env check) : Framed env (marking check) where
  frame := fun {node s s' t} hrun => by
    by_cases hs : s.Coherent
    · exact h.frame (marking_of_coherent hs ▸ hrun)
    · rw [marking_of_not_coherent hs] at hrun
      cases hrun
      exact Frame.trans (.addRow (by simp)) (.addRow (by simp))
  expression := fun {node members s s' t} hkind hrun => by
    by_cases hs : s.Coherent
    · exact h.expression hkind (marking_of_coherent hs ▸ hrun)
    · rw [marking_of_not_coherent hs] at hrun
      cases hrun
      exact ⟨_, TypeTable.shape?_push_nextId _⟩

/-- Checks that agree on coherent states are probed by the check that leaves marks elsewhere. -/
theorem marking_probes (hframed : Framed env check)
    (hagree : ∀ n r, r.Coherent → other n env r = check n env r) (node : NodeId) :
    Probes env (marking check node) (other node) where
  keeps hrun := ((marking_framed hframed).frame hrun).grows.keepsNames
  ends hnot := ⟨_, _, marking_of_not_coherent fun hs => hnot hs.types.layered⟩
  follows := fun {s b t} hrun => by
    by_cases hs : s.Coherent
    · exact ⟨b, t, by rw [marking_of_coherent hs, ← hagree node s hs, hrun]⟩
    · exact ⟨_, _, marking_of_not_coherent hs⟩
  same := fun {s a s'} hrun hlayered => by
    by_cases hs : s.Coherent
    · rw [hagree node s hs, ← hrun, marking_of_coherent hs]
    · rw [marking_of_not_coherent hs] at hrun
      cases hrun
      exact absurd hlayered (mark_not_layered s)

/-! ### Nested checks -/

section

variable (hwf : env.tree.WellFormed) (hframed : Framed env check) (hgrounded : Grounded env check)

include hwf hframed hgrounded

theorem checkStep_grounded : Grounded env (checkStep check) := fun hs hrun =>
  (checkStep_evaluates hwf hframed hrun).coherent hwf hframed hgrounded hs

/-- A nested check begins in a coherent state. -/
theorem CallsFor.coherent (h : CallsFor env check node s inner s') (hs : s.Coherent) :
    s'.Coherent := by
  obtain ⟨other, hother, hdiffers⟩ := h
  by_contra hnot
  have hagree : ∀ n r, r.Coherent → other n env r = check n env r := fun n r hr =>
    hother n r (.inr fun heq => hnot (heq ▸ hr))
  have hprobe : ∀ {c : Check}, (∀ n r, r.Coherent → c n env r = check n env r) →
      checkStep c node env s = checkStep (marking check) node env s := by
    intro c hc
    have hprobes := checkStep_probes hwf (marking_probes hframed hc) node
    cases hrun : checkStep (marking check) node env s with
    | none =>
      cases hrun' : checkStep c node env s with
      | none => rfl
      | some outcome =>
        obtain ⟨_, _, hmarked⟩ := hprobes.follows hrun'
        exact absurd (hrun.symm.trans hmarked) (by simp)
    | some outcome =>
      have hmarked := checkStep_grounded hwf (marking_framed hframed)
        (fun hs hrun => hgrounded hs (marking_of_coherent hs ▸ hrun)) hs hrun
      exact hprobes.same hrun hmarked.1.types.layered
  exact hdiffers ((hprobe hagree).trans (hprobe fun _ _ _ => rfl).symm)

end

section

variable {deeper : Check} (hwf : env.tree.WellFormed) (hframed : Framed env deeper)
  (hgrounded : Grounded env deeper)

include hwf hframed hgrounded

theorem checkDown_grounded (depth : Nat) :
    Framed env (checkDown deeper depth) ∧ Grounded env (checkDown deeper depth) := by
  induction depth with
  | zero => exact ⟨hframed, hgrounded⟩
  | succ depth ih => exact ⟨checkStep_framed hwf ih.1, checkStep_grounded hwf ih.1 ih.2⟩

/-- The states in which nested checks begin and end are coherent. -/
theorem Passes.coherent {depth : Nat} (h : Passes env deeper depth node s s') (hs : s.Coherent) :
    s'.Coherent := by
  induction h with
  | begun => exact hs
  | ended hrun => exact ((checkDown_grounded hwf hframed hgrounded _).2 hs hrun).1
  | nested hcalls _ ih =>
    obtain ⟨hdown, hground⟩ := checkDown_grounded hwf hframed hgrounded _
    exact ih (hcalls.coherent hwf hdown hground hs)

end

section

variable {program : Program}

/-- Merging the files leaves the checker in a coherent state. -/
theorem Reached.prepared_coherent {u : Unit} (h : Reached program s)
    (hrun : prepare program.environment s = some (u, s')) : s'.Coherent := by
  have hwf := h.wellFormed
  obtain ⟨paths, rfl | ⟨s₁, hprep, hchk⟩⟩ := h.prepares
  · exact ((h.blank paths).prepare hwf hrun).coherent
      (prepare_coherent hwf (h.blank paths) (initial_coherent _) hrun)
  · have hinit : s.initialized = true :=
      (hchk.frame hwf).initialized.trans ((h.blank paths).prepare hwf hprep).initialized
    exact prepare_of_initialized hinit hrun ▸ h.coherent

/-- All states that a session passes through are coherent, if the answers are that are given to
checks that are nested too deeply. -/
theorem Passed.coherent {deeper : Check} (h : Passed program deeper s)
    (hframed : Framed program.environment deeper) (hgrounded : Grounded program.environment deeper) :
    s.Coherent := by
  cases h with
  | between h => exact h.coherent
  | during h hprep hchk hpasses =>
    have hwf := h.wellFormed
    exact hpasses.coherent hwf hframed hgrounded (hchk.coherent hwf (h.prepared_coherent hprep))

end

end Checking

end ApiSchema
