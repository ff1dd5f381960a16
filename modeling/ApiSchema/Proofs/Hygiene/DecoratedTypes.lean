import ApiSchema.Proofs.Hygiene.OpenParameters

/-!
# Types that decorators are run on

Decorators are for complete types. A type in a template is taken to be complete in an instance none
of whose arguments is open. The search for open parameters in an argument does not look into the
properties of models, so an open parameter may be missed there. Nothing else is: when decorators
were run on a type from which an open parameter is reached, the parameter is reached from an
argument of the instance in which it was not seen.
-/

namespace ApiSchema.Checking

variable {s : State}

/-- In every state of a session, an open parameter that is reached from a type on which a decorator
was run is reached from an argument of the template instance that was checked at that moment, though
none of the arguments is open. -/
theorem argument_reaches_of_decorated {program : Program} (h : Reached program s) {a : Attempt}
    (ha : a ∈ s.attempts) {hole : TypeId}
    (hhole : s.types.shape? hole = some .templateParameter)
    (hreaches : s.types.Reaches a.target hole) :
    ∃ i, a.context = some i ∧ (∀ argument ∈ i.arguments, s.types.isOpen argument = false) ∧
      ∃ argument ∈ i.arguments, s.types.Reaches argument hole := by
  obtain ⟨p, good, hygienic, hbad, hreached⟩ := h.separated hhole
  obtain ⟨-, hgood | ⟨i, hi, hclosed, argument, hargument, hnot⟩⟩ := hygienic.attempts ha
  · exact absurd (hygienic.reaches hreaches hgood) hbad
  · exact ⟨i, hi, fun b hb => (hclosed b hb).2, argument, hargument,
      hreached (hclosed argument hargument).1 hnot⟩

/-- A decorated box for anything, and a crate with a box for a model that holds anything:
`@doc("box") model Box<T> { value: T }` and `model Crate<U> { box: Box<{ content: U }> }`. -/
def crates : Program :=
  ⟨.default, [], .ofFiles [⟨"crate", [
    .modelDecl "Box" ["T"] none none [.required "value" "T"]
      [.mk "doc" [.string "box"]],
    .modelDecl "Crate" ["U"] none none [.property "box" false (.reference "Box"
      [.model [.required "content" "U"]]) none []] []]⟩],
    Documentation.install .empty⟩

/-- The box in a crate for anything is documented, though the parameter of the crate is reached from
the model that the box holds. -/
theorem openType_decorated_crates :
    ∃ s, Reached crates s ∧ ∃ a ∈ s.attempts, a.outcome.isSome = true ∧
      ∃ hole, s.types.shape? hole = some .templateParameter ∧ s.types.Reaches a.target hole := by
  obtain ⟨answer, s, hrun, ⟨a, ha, htarget, hinvoked⟩, hhole, hheld, hcontent, hopen⟩ :=
    @exists_run crates 12 (fun s => (∃ a ∈ s.attempts, a.target = ⟨10⟩ ∧ a.outcome.isSome = true) ∧
      s.types.shape? ⟨6⟩ = some .templateParameter ∧ s.types.Refers ⟨10⟩ ⟨8⟩ ∧
      s.types.Refers ⟨8⟩ ⟨9⟩ ∧ s.types.Refers ⟨9⟩ ⟨6⟩) _ (by decide +kernel)
  refine ⟨s, .of_run hrun, a, ha, hinvoked, ⟨6⟩, hhole, ?_⟩
  rw [htarget]
  exact ((Relation.ReflTransGen.single hheld).tail hcontent).tail hopen

/-- The argument that hides the parameter of the crate is the model that the box holds. -/
theorem argument_reaches_of_decorated_crates :
    ∃ s, Reached crates s ∧ ∃ a ∈ s.attempts, a.target = ⟨10⟩ ∧
      s.types.shape? ⟨6⟩ = some .templateParameter ∧ s.types.Reaches ⟨10⟩ ⟨6⟩ ∧
      ∃ i, a.context = some i ∧ (∀ argument ∈ i.arguments, s.types.isOpen argument = false) ∧
        ∃ argument ∈ i.arguments, s.types.Reaches argument ⟨6⟩ := by
  obtain ⟨answer, s, hrun, ⟨a, ha, htarget⟩, hhole, hheld, hcontent, hopen⟩ :=
    @exists_run crates 12 (fun s => (∃ a ∈ s.attempts, a.target = ⟨10⟩) ∧
      s.types.shape? ⟨6⟩ = some .templateParameter ∧ s.types.Refers ⟨10⟩ ⟨8⟩ ∧
      s.types.Refers ⟨8⟩ ⟨9⟩ ∧ s.types.Refers ⟨9⟩ ⟨6⟩) _ (by decide +kernel)
  have hreached : Reached crates s := .of_run hrun
  have hreaches : s.types.Reaches ⟨10⟩ ⟨6⟩ :=
    ((Relation.ReflTransGen.single hheld).tail hcontent).tail hopen
  exact ⟨s, hreached, a, ha, htarget, hhole, hreaches,
    argument_reaches_of_decorated hreached ha hhole (htarget ▸ hreaches)⟩

end ApiSchema.Checking
