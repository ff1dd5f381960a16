import ApiSchema.Proofs.Checking.BasicRules

/-!
# Reports

What a computation reports is found out without a look at its answer. References and `using`
statements complain of names that stand for nothing or for the wrong thing, which is told by the
codes of the messages; a message with another code comes from elsewhere.
-/

namespace ApiSchema.Checking

variable {env : Environment} {s s' : State}

/-- A diagnostic has the code of its message. -/
theorem code_diagnosticAt (tree : Tree) (message : Message) (arguments : List String)
    (node : Option NodeId) : (diagnosticAt tree message arguments node).code = message.code := by
  rw [diagnosticAt]
  split <;> rfl

/-- Whatever the computation reports is among the messages. -/
def Tells {α : Type} (env : Environment) (allowed : Message → Prop) (x : CheckM α) : Prop :=
  ∀ s a s', x env s = some (a, s') → ∃ more,
    s'.diagnostics.toList = s.diagnostics.toList ++ more ∧ ∀ d ∈ more, allowed d.message

namespace Tells

variable {α β : Type} {allowed : Message → Prop}

theorem pure (a : α) : Tells env allowed (Pure.pure a : CheckM α) := fun s _ s' hrun => by
  rw [(run_pure.mp hrun).2]
  exact ⟨[], by simp, by simp⟩

theorem modify {f : State → State} (hf : ∀ s, (f s).diagnostics = s.diagnostics) :
    Tells env allowed (modify f : CheckM PUnit) := fun s _ s' hrun => by
  rw [run_modify.mp hrun, hf]
  exact ⟨[], by simp, by simp⟩

theorem addType (node : Option NodeId) (shape : TypeShape) :
    Tells env allowed (addType node shape) := fun s _ s' hrun => by
  rw [(run_addType.mp hrun).2]
  exact ⟨[], (List.append_nil _).symm, by simp⟩

theorem bind {x : CheckM α} {f : α → CheckM β} (hx : Tells env allowed x)
    (hf : ∀ a, Tells env allowed (f a)) : Tells env allowed (x >>= f) := fun s _ s' hrun => by
  obtain ⟨a, s₁, hfirst, hrest⟩ := run_bind.mp hrun
  obtain ⟨before, hbefore, hallowed⟩ := hx _ _ _ hfirst
  obtain ⟨after, hafter, hallowed'⟩ := hf a _ _ _ hrest
  refine ⟨before ++ after, by rw [hafter, hbefore, List.append_assoc], fun d hd => ?_⟩
  exact (List.mem_append.mp hd).elim (hallowed d) (hallowed' d)

theorem getTypes_bind {f : TypeTable → CheckM β} (hf : ∀ types, Tells env allowed (f types)) :
    Tells env allowed (getTypes >>= f) := fun s => hf s.types s

theorem mono {allowed' : Message → Prop} {x : CheckM α} (h : Tells env allowed x)
    (himp : ∀ message, allowed message → allowed' message) : Tells env allowed' x :=
  fun s a s' hrun => by
    obtain ⟨more, hmore, hall⟩ := h s a s' hrun
    exact ⟨more, hmore, fun d hd => himp _ (hall d hd)⟩

theorem forM {f : α → CheckM PUnit} (hf : ∀ a, Tells env allowed (f a)) (xs : List α) :
    Tells env allowed (xs.forM f) := by
  induction xs with
  | nil => exact .pure _
  | cons x rest ih => exact .bind (hf x) fun _ => ih

theorem report {message : Message} (h : allowed message) (arguments : List String)
    (node : Option NodeId) : Tells env allowed (report message arguments node) := fun s _ s' hrun => by
  simp only [Checking.report, Checking.getTree_bind, run_modify] at hrun
  subst hrun
  refine ⟨[_], rfl, fun d hd => ?_⟩
  obtain rfl := List.mem_singleton.mp hd
  rw [diagnosticAt]
  split <;> exact h

end Tells

/-- References and `using` statements report what they may if their parts do. -/
def Tells.rules (env : Environment) (allowed : Message → Prop) : BasicRules env.tree allowed where
  holds m _ := Tells env allowed m
  pure := .pure
  bind := .bind
  look _ _ hf := fun s => hf s s
  getTree_bind hf := hf
  report arguments place h := .report h arguments place

theorem tooDeep_tells (allowed : Message → Prop) :
    Tells env allowed (tooDeep : CheckM (Option SymbolId)) :=
  fun _ _ _ hrun => absurd hrun run_tooDeep

theorem checkUsing_tells (statement : NodeId) :
    Tells env (·.code < 1009) (checkUsing statement) := by
  have himport : ∀ owner exports, Tells env (·.code < 1009) (importNames owner exports) :=
    fun _ _ => .modify fun _ => rfl
  exact (Tells.rules env _).checkUsing (fun _ => id) (.inl (tooDeep_tells (·.code < 1009)))
    himport statement

end ApiSchema.Checking
