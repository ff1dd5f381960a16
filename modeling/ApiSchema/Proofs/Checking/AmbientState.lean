import ApiSchema.Proofs.Checking.Session

/-!
# Ambient state

While a node is checked the state tells which template instance is being checked, which models and
interfaces are under construction and which aliases are being resolved. All of these are set by hand
around checks that lead to any other checks, and every way out of a check has to put them back.
-/

namespace ApiSchema.Checking

/-- A check leaves the template context, the models and interfaces under construction and the open
aliases as they were, in any state that it begins in. Between requests there is no context, and
nothing is under construction, whatever was reported and whichever decorators have failed. -/
theorem ambient_state_restored (files : List SourceFile) (registry : Registry) (designTime : Bool) :
    (∀ depth node s t s',
      checkNode depth node ⟨.ofFiles files, registry, designTime⟩ s = some (t, s') →
        s'.context = s.context ∧ s'.pending = s.pending ∧ s'.openAliases = s.openAliases) ∧
    ∀ paths requests answers s,
      Performs ⟨.ofFiles files, registry, designTime⟩ requests
        (.initial (.declaring (.ofFiles files) paths)) answers s →
        s.context = none ∧ s.pending = .empty ∧ s.openAliases = [] := by
  have hwf := (Tree.ofFiles_complete files).toWellFormed
  refine ⟨fun depth node s t s' hrun => ?_, fun paths requests answers s hrun => ?_⟩
  · have hframe : Frame none s s' := (checkNode_framed hwf depth).frame hrun
    exact ⟨hframe.context, hframe.pending, hframe.openAliases⟩
  · obtain ⟨_, merged, s₁, hblank, hchecked⟩ := hrun.reached.checked
    have hframe := hchecked.frame hwf
    exact ⟨hframe.context.trans hblank.context, hframe.pending.trans hblank.pending,
      hframe.openAliases.trans hblank.openAliases⟩

/-- Boxes of boxes, an alias of itself, and a documentation that is no text. -/
def wagons : List SourceFile :=
  [⟨"wagons", [
    .modelDecl "Box" ["T"] none none [.required "content" "T",
        .property "outer" true (.reference "Box" [.reference "Loop" []]) none []]
      [.mk "doc" [.boolean true]],
    .aliasDecl "Loop" [] (.array (.reference "Loop" [])),
    .modelDecl "Wagon" [] (some (.reference "Box" [.reference "Wagon" []])) none [] []]⟩]

/-- The checker over the wagons, with the standard decorators. -/
def wagonCheck : Environment := ⟨.ofFiles wagons, Documentation.install .empty, false⟩

/-- In the midst of an instance of boxes, with that box and the alias under way, the check of wagons
puts back what it found; and after a check that failed nothing is left under way. -/
theorem ambient_state_restored_wagons :
    (∃ s₁ t s', prepare wagonCheck (.initial (.declaring (.ofFiles wagons) ["doc"])) =
        some ((), s₁) ∧
      checkNode 20 ⟨41⟩ wagonCheck { s₁ with
        context := some ⟨⟨32⟩, [⟨0⟩]⟩
        pending := OrderedMap.empty.insert (⟨32⟩, [⟨0⟩]) ⟨1⟩
        openAliases := [(⟨36⟩, [])] } = some (t, s') ∧
      s₁.types.size < s'.types.size ∧ s'.context = some ⟨⟨32⟩, [⟨0⟩]⟩ ∧
      s'.pending = OrderedMap.empty.insert (⟨32⟩, [⟨0⟩]) ⟨1⟩ ∧ s'.openAliases = [(⟨36⟩, [])]) ∧
    ∃ answers s, Performs wagonCheck [.program]
        (.initial (.declaring (.ofFiles wagons) ["doc"])) answers s ∧
      s.failure = some (.decorator "doc" (.invalidArgument 0 "expected a string")) ∧
      s.diagnostics.toList.length = 1 ∧
      s.context = none ∧ s.pending = .empty ∧ s.openAliases = [] := by
  obtain ⟨hcheck, hbetween⟩ := ambient_state_restored wagons (Documentation.install .empty) false
  refine ⟨?_, ?_⟩
  · have hruns : ((prepare wagonCheck (.initial (.declaring (.ofFiles wagons) ["doc"]))).bind
        fun first => (checkNode 20 ⟨41⟩ wagonCheck { first.2 with
          context := some ⟨⟨32⟩, [⟨0⟩]⟩
          pending := OrderedMap.empty.insert (⟨32⟩, [⟨0⟩]) ⟨1⟩
          openAliases := [(⟨36⟩, [])] }).map fun second => (first, second)).any
        (fun (first, second) => first.2.types.size < second.2.types.size) = true := by
      decide +kernel
    obtain ⟨_, hrun, hsize⟩ := (Option.any_eq_true _ _).mp hruns
    obtain ⟨⟨_, s₁⟩, hprepare, hmap⟩ := Option.bind_eq_some_iff.mp hrun
    obtain ⟨⟨t, s'⟩, hchecked, rfl⟩ := Option.map_eq_some_iff.mp hmap
    exact ⟨s₁, t, s', hprepare, hchecked, of_decide_eq_true hsize, hcheck _ _ _ _ _ hchecked⟩
  · obtain ⟨answers, s, hrun, hfailure, hreports⟩ := @exists_performs wagonCheck
      (.initial (.declaring (.ofFiles wagons) ["doc"])) 20 [.program]
      (fun outcome => outcome.2.failure =
          some (.decorator "doc" (.invalidArgument 0 "expected a string")) ∧
        outcome.2.diagnostics.toList.length = 1) _ (by decide +kernel)
    exact ⟨answers, s, hrun, hfailure, hreports, hbetween _ _ _ _ hrun⟩

end ApiSchema.Checking
