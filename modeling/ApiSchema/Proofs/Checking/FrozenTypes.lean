import ApiSchema.Proofs.Decorating.AttemptOrder

/-!
# Frozen types

Models, interfaces and enums are filled in while any number of other declarations is checked. All
the same a type is final when the call that made it comes back, and what a decorator saw of it is
what it stays.
-/

namespace ApiSchema.Checking

open Option

variable {env : Environment} {bound : Bindings} {program : Program} {s s' : State} {u : Unit}

/-- Giving types to namespaces changes no other types. -/
theorem createNamespaceType_frozen {node : NodeId} {name : String}
    (hrun : createNamespaceType node name env s = some (u, s')) :
    s.types.Frozen none s'.types := by
  rcases createNamespaceType_cases hrun with ⟨rfl, -⟩ | ⟨rfl, -⟩ | ⟨symbol, parent, -, -, -, rfl⟩
  · exact .refl _ _
  · exact .refl _ _
  · exact (TypeTable.Frozen.push none s.types _).trans
      (.fill _ _ parent fun n => .addNamespace n name s.types.nextId)

/-- So it is for all that is done before the first check. -/
theorem prepare_frozen (hwf : env.tree.WellFormed) {merged : Bool}
    (hblank : Blank env bound merged s) (hrun : prepare env s = some (u, s')) :
    s.types.Frozen none s'.types :=
  prepare_types (P := s.types.Frozen none) hwf hblank (.refl _ _)
    (fun _ hfrozen hfirst => hfrozen.trans (createNamespaceType_frozen hfirst)) hrun

/-- A call changes no type that was there, and namespaces are only extended. -/
theorem Call.frozen (h : Call program s s') (hs : Reached program s) :
    s.types.Frozen none s'.types := by
  have hwf := hs.wellFormed
  obtain ⟨s₁, hprep, hchk⟩ := h.checked hwf
  obtain ⟨paths, rfl | ⟨s₀, hprep₀, hchk₀⟩⟩ := hs.prepares
  · have hblank := hs.blank paths
    exact (prepare_frozen hwf hblank hprep).trans
      ((hchk (hblank.prepare hwf hprep).initialized).frame hwf).frozen
  · have hinit : s.initialized = true := (hchk₀.frame hwf).initialized.trans
      ((hs.blank paths).prepare hwf hprep₀).initialized
    obtain rfl := prepare_of_initialized hinit hprep
    exact ((hchk hinit).frame hwf).frozen

theorem Reached.frozen (h : Reached program s)
    (hcalls : Relation.ReflTransGen (Call program) s s') : s.types.Frozen none s'.types := by
  induction hcalls with
  | refl => exact .refl _ _
  | tail hcalls hlast ih => exact ih.trans (hlast.frozen (h.calls_trans hcalls))

/-- In every state of a session a decorator has seen its target as it is, unless the target is a
namespace. -/
theorem Reached.shown (h : Reached program s) : ∀ a ∈ s.attempts, ∃ row, a.seen = some row ∧
    (row.shape.isNamespace = false → s.types.get? a.target = some row) := by
  obtain ⟨_, merged, s₁, hblank, hchk⟩ := h.checked
  have hwf := h.wellFormed
  obtain ⟨new, heq, hnew⟩ := ((tries_evolution hwf).checked hwf hchk).shows (by simp)
    hblank.namespaceType
  intro a ha
  rw [heq, hblank.attempts, List.nil_append] at ha
  obtain ⟨row, hseen, hrow⟩ := hnew a ha
  exact ⟨row, hseen, fun hnot => (hrow.resolve_left (by simp [hnot])).2⟩

/-- Types are frozen. A call of the checker leaves every type that was there as it is; of namespaces
it keeps the name and the parent, and adds to what they hold and to their decorators only at the
end. The target that a decorator saw, unless it was a namespace, is the target for good. -/
theorem types_frozen (h : Reached program s) (hcall : Call program s s') :
    (∀ id row, s.types.get? id = some row → row.shape.isNamespace = false →
      s'.types.get? id = some row) ∧
    (∀ id node n, s.types.get? id = some ⟨node, .namespaceType n⟩ →
      ∃ n', s'.types.get? id = some ⟨node, .namespaceType n'⟩ ∧ n.Extends n') ∧
    ∀ a ∈ s'.attempts, ∃ row, a.seen = some row ∧ (row.shape.isNamespace = false →
      ∀ later, Relation.ReflTransGen (Call program) s' later →
        later.types.get? a.target = some row) := by
  have hfrozen := hcall.frozen h
  have hreached : Reached program s' := h.calls_trans (.single hcall)
  refine ⟨fun id row hrow => hfrozen.kept hrow (by simp),
    fun id node n hrow => hfrozen.namespaceType hrow, fun a ha => ?_⟩
  obtain ⟨row, hseen, hrow⟩ := hreached.shown a ha
  exact ⟨row, hseen, fun hnot later hcalls =>
    (hreached.frozen hcalls).kept (hrow hnot) (by simp) hnot⟩

/-- Folders begin with a sheet. Both are documented, and in one namespace. -/
def archives : Program :=
  .ofFiles .default (Documentation.install .empty) [⟨"shelf", [
    .namespaceDecl "Archive" false [
      .modelDecl "Folder" [] none none [.required "first" "Sheet"]
        [.mk "doc" [.string "A folder."]],
      .modelDecl "Sheet" [] none none [] [.mk "doc" [.string "A sheet."]]] []]⟩]

/-- Sheets, asked for first, are not changed by the check of the archives, which adds folders to the
namespace after them; and both were documented as they are in the end. -/
theorem types_frozen_archives :
    ∃ sheet s answer s',
      typeOfNode 20 ⟨30⟩ archives.environment (.initial archives.bindings) = some (sheet, s) ∧
      checkProgram 20 archives.environment s = some (answer, s') ∧
      s.attempts.length = 1 ∧ s'.attempts.length = 2 ∧
      s'.types.get? sheet = s.types.get? sheet ∧
      (∃ node n n', s.types.get? ⟨2⟩ = some ⟨node, .namespaceType n⟩ ∧
        s'.types.get? ⟨2⟩ = some ⟨node, .namespaceType n'⟩ ∧ n.Extends n') ∧
      ∀ a ∈ s'.attempts, s'.types.get? a.target = a.seen := by
  let calls := (typeOfNode 20 ⟨30⟩ archives.environment (.initial archives.bindings)).bind
    fun first => (checkProgram 20 archives.environment first.2).map fun second => (first, second)
  have hcalls : calls.any (fun (first, second) =>
      first.2.attempts.length = 1 ∧ second.2.attempts.length = 2 ∧
      (first.2.types.get? first.1).any (·.shape.isNamespace = false) ∧
      (first.2.types.get? ⟨2⟩).any (·.shape.isNamespace) ∧
      ∀ a ∈ second.2.attempts, a.seen.any (·.shape.isNamespace = false)) = true := by
    decide +kernel
  obtain ⟨_, hrun, hfacts⟩ := (any_eq_true _ _).mp hcalls
  obtain ⟨⟨sheet, s⟩, hfirst, hmap⟩ := bind_eq_some_iff.mp hrun
  obtain ⟨⟨answer, s'⟩, hsecond, rfl⟩ := map_eq_some_iff.mp hmap
  obtain ⟨hbefore, hafter, hsheet, harchive, hseen⟩ := of_decide_eq_true hfacts
  have hinitial : Reached archives (.initial archives.bindings) := .initial _ _ _
  have hcall : Call archives _ s := ⟨20, .node ⟨30⟩, _, run_bind.mpr ⟨sheet, s, hfirst, rfl⟩⟩
  obtain ⟨hkept, hextended, hfinal⟩ := types_frozen (hinitial.calls_trans (.single hcall))
    (.of_check hsecond)
  refine ⟨sheet, s, answer, s', hfirst, hsecond, hbefore, hafter, ?_, ?_, fun a ha => ?_⟩
  · obtain ⟨row, hrow, hshape⟩ := (any_eq_true _ _).mp hsheet
    rw [hrow, hkept _ _ hrow (by simpa using hshape)]
  · obtain ⟨⟨node, shape⟩, hrow, hshape⟩ := (any_eq_true _ _).mp harchive
    cases shape with
    | namespaceType n =>
      obtain ⟨n', hrow', hextends⟩ := hextended _ _ _ hrow
      exact ⟨node, n, n', hrow, hrow', hextends⟩
    | _ => simp at hshape
  · obtain ⟨row, hrow, hsame⟩ := hfinal a ha
    have hshape := hseen a ha
    rw [hrow] at hshape ⊢
    exact hsame (by simpa using hshape) s' .refl

end ApiSchema.Checking
