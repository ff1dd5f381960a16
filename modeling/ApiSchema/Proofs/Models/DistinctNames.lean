import ApiSchema.Proofs.Models.Construction

/-!
# The names of the properties of a model

No property of a model has the name of one that it inherits: such a property is reported and left
out. There are two gaps in this. The names that a model inherits are read once, so that they are not
all known if a base model is still under construction. And what a model copies is not compared with
what it inherits, so that names may collide if it extends one model and copies another. Where
neither happens, all names of a model and its bases are distinct.
-/

namespace ApiSchema.Checking

variable {s : State}

/-- In every state of a session, the properties of a model and of its bases have distinct names, if
what the model draws on was complete when it was read, and no model among these that extends another
one copies a property with a name that it inherits. -/
theorem inheritedNames_nodup {program : Program} (h : Reached program s) {t : TypeId} {m : ModelType}
    (ht : s.types.model? t = some m) (hsound : Sound s t) :
    (∀ p ∈ s.types.inheritedProperties t, ∃ property, s.types.property? p = some property) ∧
      (s.types.inheritedNames t).Nodup := by
  have horderly := h.orderly
  refine ⟨fun p hp => ?_, (horderly.distinct hsound ht (by simp [h.building])).nodup⟩
  obtain ⟨k, -, hk⟩ := List.mem_flatMap.mp hp
  exact TypeTable.allProperties_ownProperties horderly.named k p hk

/-- Boxes are items, a crate is like a box, and a parcel is like a box too but extends a label:
`model Item { id: string }`, `model Box extends Item { size: string }`,
`model Label { address: string }`, `model Crate is Box { lid: string }` and
`model Parcel extends Label is Box { weight: string, ...Item }`. -/
def parcels : Program :=
  .ofFiles .default .empty [⟨"parcel", [
    .model "Item" [.required "id" "string"],
    .modelDecl "Box" [] (some (.reference "Item" [])) none [.required "size" "string"] [],
    .model "Label" [.required "address" "string"],
    .modelDecl "Crate" [] none (some (.reference "Box" [])) [.required "lid" "string"] [],
    .modelDecl "Parcel" [] (some (.reference "Label" [])) (some (.reference "Box" []))
      [.required "weight" "string", .spread (.reference "Item" [])] []]⟩]

/-- All properties of a parcel have names of their own. -/
theorem inheritedNames_nodup_parcels :
    ∃ s, Reached parcels s ∧ Sound s ⟨12⟩ ∧
      s.types.inheritedNames ⟨12⟩ = ["size", "weight", "id", "address"] ∧
      (s.types.inheritedNames ⟨12⟩).Nodup := by
  obtain ⟨answer, s, hrun, hsettled, hdisjoint, hmodel, hnames⟩ := @exists_run parcels 12 (fun s =>
    (∀ r ∈ s.readings, r.use ≠ .spread → r.Settled) ∧
    (∀ r ∈ s.readings, ∀ q ∈ s.readings, r.reader = q.reader → r.use = .copied false →
      q.use = .inherited → ∀ name ∈ s.types.propertyNames r.properties,
        name ∉ s.types.propertyNames q.properties) ∧
    (s.types.model? ⟨12⟩).isSome = true ∧
    s.types.inheritedNames ⟨12⟩ = ["size", "weight", "id", "address"]) _ (by decide +kernel)
  have hreached : Reached parcels s := .of_run hrun
  have hsound : Sound s ⟨12⟩ := ⟨fun r hr huse _ => hsettled r hr huse,
    fun r hr q hq hreader hcopied hinherited _ name hname =>
      hdisjoint r hr q hq hreader hcopied hinherited name hname⟩
  obtain ⟨m, hm⟩ := Option.isSome_iff_exists.mp hmodel
  exact ⟨s, hreached, hsound, hnames, (inheritedNames_nodup hreached hm hsound).2⟩

/-- A parcel that is like an item and extends a label, both of which have an `id`:
`model Parcel extends Label is Item {}`. -/
def relabeled : Program :=
  .ofFiles .default .empty [⟨"parcel", [
    .model "Item" [.required "id" "string"],
    .model "Label" [.required "id" "string"],
    .modelDecl "Parcel" [] (some (.reference "Label" [])) (some (.reference "Item" [])) [] []]⟩]

/-- The parcel has the two properties under one name, and nothing is reported. -/
theorem inheritedNames_collide_relabeled :
    ∃ s, Reached relabeled s ∧ s.diagnostics.toList = [] ∧
      s.types.inheritedNames ⟨7⟩ = ["id", "id"] := by
  obtain ⟨answer, s, hrun, hnil, hnames⟩ := @exists_run relabeled 12 (fun s =>
    s.diagnostics.toList = [] ∧ s.types.inheritedNames ⟨7⟩ = ["id", "id"]) _ (by decide +kernel)
  exact ⟨s, .of_run hrun, hnil, hnames⟩

end ApiSchema.Checking
