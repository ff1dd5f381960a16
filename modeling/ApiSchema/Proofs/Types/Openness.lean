import ApiSchema.Checking.Template
import ApiSchema.Proofs.Types.Growth

/-!
# Open types

Whether an open template parameter occurs in a type is decided by a search through template
arguments, elements of arrays, values of tuples and options of unions. These are all older than the
type they occur in, and never change, so the search comes to the same end in every table that the
type table grows into.
-/

namespace ApiSchema

/-- The types in which an open parameter is looked for. -/
def TypeShape.mentions : TypeShape → List TypeId
  | .model m => m.templateArguments
  | .interfaceType i => i.templateArguments
  | .array element => [element]
  | .tuple values => values
  | .union options => options
  | _ => []

theorem TypeShape.mentions_subset_links (shape : TypeShape) : shape.mentions ⊆ shape.links := by
  cases shape with
  | model m => exact List.subset_append_right _ _
  | interfaceType i => exact List.subset_append_right _ _
  | _ => first | exact List.Subset.refl _ | exact List.nil_subset _

theorem TypeShape.Grown.mentions {shape shape' : TypeShape} (h : shape.Grown shape') :
    shape'.mentions = shape.mentions := by
  cases h with
  | model h => exact h.templateArguments
  | interface heq _ =>
    rw [TypeShape.mentions, TypeShape.mentions, heq]
  | _ => rfl

namespace TypeTable

variable {types types' : TypeTable} {id : TypeId}

/-- The types in which an open parameter is looked for are older than the type itself. -/
def Descending (types : TypeTable) : Prop :=
  ∀ {id : TypeId} {shape : TypeShape}, types.shape? id = some shape →
    ∀ other ∈ shape.mentions, other.index < id.index

theorem isOpenWithin_succ_iff {depth : Nat} :
    types.isOpenWithin (depth + 1) id = true ↔ ∃ shape, types.shape? id = some shape ∧
      (shape = .templateParameter ∨
        ∃ other ∈ shape.mentions, types.isOpenWithin depth other = true) := by
  rw [isOpenWithin, isOpenStep]
  cases types.shape? id with
  | none => simp
  | some shape => cases shape <;> simp [TypeShape.mentions]

/-- A search that finds an open parameter in a later table finds it in an earlier one, if it may go
as deep as the type is old. -/
theorem isOpenWithin_of_grows {depth depth' : Nat} (hgrows : types.Grows types')
    (hdesc : types'.Descending) (hid : types.Has id) (hdepth : id.index < depth)
    (h : types'.isOpenWithin depth' id = true) : types.isOpenWithin depth id = true := by
  induction depth generalizing depth' id with
  | zero => exact absurd hdepth (Nat.not_lt_zero _)
  | succ depth ih =>
    cases depth' with
    | zero => simp [isOpenWithin] at h
    | succ depth' =>
      obtain ⟨row, hrow⟩ := hid
      have hshape : types.shape? id = some row.shape := by rw [shape?, hrow]; rfl
      obtain ⟨shape', hshape', hgrown⟩ := hgrows.shape hshape
      obtain ⟨shape, hlater, hopen⟩ := isOpenWithin_succ_iff.mp h
      obtain rfl : shape = shape' := Option.mem_unique hlater hshape'
      refine isOpenWithin_succ_iff.mpr ⟨row.shape, hshape, hopen.imp (fun heq => ?_) ?_⟩
      · rw [heq] at hgrown
        generalize row.shape = old at hgrown
        cases hgrown
        rfl
      · rintro ⟨other, hother, hopen⟩
        have hlt := hdesc hlater other hother
        rw [hgrown.mentions] at hother
        have hsize := has_iff.mp ⟨row, hrow⟩
        exact ⟨other, hother, ih (has_iff.mpr (by omega)) (by omega) hopen⟩

/-- A type that is not open never becomes so. -/
theorem isOpen_of_grows (hgrows : types.Grows types') (hdesc : types'.Descending)
    (hid : types.Has id) (h : types.isOpen id = false) : types'.isOpen id = false := by
  refine Bool.eq_false_iff.mpr fun hopen => ?_
  have hdepth : id.index < types.size + 1 := Nat.lt_succ_of_lt (has_iff.mp hid)
  exact Bool.eq_false_iff.mp h (isOpenWithin_of_grows hgrows hdesc hid hdepth hopen)

end TypeTable

end ApiSchema
