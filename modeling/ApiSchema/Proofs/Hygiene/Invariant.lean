import ApiSchema.Proofs.Checking.Session
import ApiSchema.Proofs.Types.Openness
import Mathlib.Logic.Function.Basic

/-!
# Keeping track of an open parameter

To show where the type of an open template parameter can be reached from, one parameter and the
final type table are fixed, and a set of *good* types is kept along the run: types from which the
parameter must not be reached. A type is made good when it is built where the parameter has no
meaning, or where it stands for good arguments, or when it turns out in the final table not to reach
the parameter anyway. `Hygienic` says that good types refer only to good types, and that everything
the checker remembers is good whenever the arguments it belongs to are. Decorators are run on good
types, or in an instance that was not seen to have an argument that is not good.
-/

namespace ApiSchema.Checking

open TypeTable Table

variable {id t : TypeId} {types types' : TypeTable} {key ids : List TypeId}

section

variable (final : TypeTable) (parameter : NodeId)

/-- The type stands for the parameter. -/
def IsHole (id : TypeId) : Prop := final.get? id = some ⟨some parameter, .templateParameter⟩

/-- In the final table the parameter is not reached. -/
def IsClear (id : TypeId) : Prop := ∀ hole, final.Reaches id hole → ¬ IsHole final parameter hole

end

variable {env : Environment} {final : TypeTable} {parameter : NodeId}
  {good good' good'' : TypeId → Prop} {s s' : State}

/-- What a clear type refers to is clear. -/
theorem IsClear.of_refers {other : TypeId} (h : IsClear final parameter id)
    (hrefers : final.Refers id other) : IsClear final parameter other :=
  fun hole hreach => h hole (.head hrefers hreach)

/-- Only types of template parameters stand for a parameter. -/
theorem not_isHole_of_grows {row : TypeRecord} (hgrows : types.Grows final)
    (hrow : types.get? id = some row)
    (hother : row.shape = .templateParameter → row.node ≠ some parameter) :
    ¬ IsHole final parameter id := by
  intro hhole
  obtain ⟨shape, hfinal, hgrown⟩ := hgrows.row hrow
  rw [IsHole, hfinal, Option.some.injEq, TypeRecord.mk.injEq] at hhole
  obtain ⟨hnode, rfl⟩ := hhole
  obtain ⟨node, shape⟩ := row
  cases hgrown
  exact hother rfl hnode

/-! ### The invariant -/

/-- The sets of good types agree on all types of a state. -/
def Agrees (s : State) (good good' : TypeId → Prop) : Prop :=
  ∀ ⦃id : TypeId⦄, s.types.Has id → (good' id ↔ good id)

/-- A set of types agrees with itself. -/
theorem Agrees.refl : Agrees s good good := fun _ _ => Iff.rfl

/-- Sets that agree contain the same lists of types of the state. -/
theorem Agrees.all (h : Agrees s good good') (hids : ∀ id ∈ ids, s.types.Has id) :
    (∀ id ∈ ids, good' id) ↔ ∀ id ∈ ids, good id :=
  forall₂_congr fun id hid => h (hids id hid)

/-- Sets that agree stay in agreement with those of later states. -/
theorem Agrees.trans (h : Agrees s good good') (hgrows : s.types.Grows s'.types)
    (h' : Agrees s' good' good'') : Agrees s good good'' :=
  fun _ hid => (h' (hgrows.has hid)).trans (h hid)

/-- An instance with an argument that is not good, though none of its arguments is open. -/
def Overlooked (types : TypeTable) (good : TypeId → Prop) (context : Option Instantiation) : Prop :=
  ∃ i, context = some i ∧ (∀ a ∈ i.arguments, types.Has a ∧ types.isOpen a = false) ∧
    ∃ a ∈ i.arguments, ¬ good a

/-- What was overlooked stays so when types are added. -/
theorem Overlooked.mono {context : Option Instantiation} (h : Overlooked types good context)
    (hgrows : types.Grows types') (hdesc : types'.Descending)
    (hagrees : ∀ ⦃id⦄, types.Has id → (good' id ↔ good id)) : Overlooked types' good' context := by
  obtain ⟨i, hi, hclosed, a, ha, hbad⟩ := h
  refine ⟨i, hi, fun b hb => ?_, a, ha, fun hgood => hbad ((hagrees (hclosed a ha).1).mp hgood)⟩
  obtain ⟨hhas, hopen⟩ := hclosed b hb
  exact ⟨hgrows.has hhas, isOpen_of_grows hgrows hdesc hhas hopen⟩

/-- A type is remembered for template arguments: it is good if they are. -/
def Keyed (s : State) (good : TypeId → Prop) (key : List TypeId) (t : TypeId) : Prop :=
  s.types.Has t ∧ (∀ a ∈ key, s.types.Has a) ∧ ((∀ a ∈ key, good a) → good t)

/-- What is remembered stays so when types are added. -/
theorem Keyed.mono (h : Keyed s good key t) (hgrows : s.types.Grows s'.types)
    (hagrees : Agrees s good good') : Keyed s' good' key t := by
  obtain ⟨ht, hkey, hgood⟩ := h
  exact ⟨hgrows.has ht, fun a ha => hgrows.has (hkey a ha),
    fun hall => (hagrees ht).mpr (hgood ((hagrees.all hkey).mp hall))⟩

/-- The known types refer to known types, good ones to good ones; everything that is remembered for
template arguments is good if the arguments are. -/
structure Hygienic (env : Environment) (final : TypeTable) (parameter : NodeId)
    (good : TypeId → Prop) (s : State) : Prop where
  consistent : Bindings.Consistent env.tree s.bindings
  clear {id : TypeId} : s.types.Has id → IsClear final parameter id → good id
  hole {id : TypeId} : good id → ¬ IsHole final parameter id
  links {id other : TypeId} : s.types.Refers id other → s.types.Has other ∧ (good id → good other)
  origin {id : TypeId} {shape : TypeShape} {arguments : List TypeId} {node : Option NodeId} :
    s.types.shape? id = some shape → shape.origin? = some (arguments, node) → arguments ≠ [] →
    (∀ a ∈ arguments, good a) → good id
  error : s.types.Has errorType ∧ good errorType
  parameters {p : NodeId} {t : TypeId} : s.parameterTypes.find? p = some t →
    s.types.get? t = some ⟨some p, .templateParameter⟩ ∧ (p ≠ parameter → good t)
  literals {literal : Literal} {t : TypeId} : s.literalTypes.find? literal = some t →
    s.types.Has t ∧ good t
  namespaces {symbol : SymbolId} {t : TypeId} : (s.linksOf symbol).namespaceType = some t →
    s.types.Has t ∧ good t
  declared {symbol : SymbolId} {t : TypeId} : s.declaredType? symbol = some t → s.types.Has t ∧
    ∀ n, s.bindings.symbolOf? n = some symbol → parameter ∉ env.tree.templateParameters n → good t
  instances {symbol : SymbolId} {key : List TypeId} {t : TypeId} :
    (s.linksOf symbol).instances.find? key = some t → Keyed s good key t
  pending {node : NodeId} {key : List TypeId} {t : TypeId} :
    s.pending.find? (node, key) = some t → Keyed s good key t
  descending : s.types.Descending
  attempts {a : Attempt} : a ∈ s.attempts →
    s.types.Has a.target ∧ (good a.target ∨ Overlooked s.types good a.context)

namespace Hygienic

variable (h : Hygienic env final parameter good s)

include h

/-- Quiet changes keep the invariant. -/
theorem quiet (hquiet : Quiet s s') :
    Hygienic env final parameter good s' := by
  rw [hquiet.eq]
  exact { h with }

/-- So does an internal error. -/
theorem raise (cause : InternalError) :
    Hygienic env final parameter good (s.raise cause) := { h with }

/-- Running decorators on a type. -/
theorem decorated {target : TypeId} {applications : List DecoratorApplication}
    (hdec : Decorated target applications s s') (hhas : s.types.Has target)
    (htarget : good target ∨ Overlooked s.types good s.context) :
    Hygienic env final parameter good s' := by
  have hatts : ∀ {a : Attempt}, a ∈ s'.attempts →
      s.types.Has a.target ∧ (good a.target ∨ Overlooked s.types good a.context) := by
    intro a ha
    rcases hdec.attempts ha with hold | ⟨htarget', hctx⟩
    · exact h.attempts hold
    · rw [htarget', hctx]
      exact ⟨hhas, htarget⟩
  rw [hdec.eq]
  exact { h with attempts := hatts }

/-- Adding a type that is good or not. -/
theorem addRow (row : TypeRecord) (isGood : Prop)
    (hclear : IsClear final parameter s.types.nextId → isGood)
    (hhole : isGood → ¬ IsHole final parameter s.types.nextId)
    (hlinks : ∀ id ∈ row.shape.links, s.types.Has id ∧ (isGood → good id))
    (horigin : ∀ {arguments node}, row.shape.origin? = some (arguments, node) → arguments ≠ [] →
      (∀ a ∈ arguments, good a) → isGood) :
    Hygienic env final parameter (Function.update good s.types.nextId isGood) (s.addRow row) ∧
      Agrees s good (Function.update good s.types.nextId isGood) := by
  have hold : Agrees s good (Function.update good s.types.nextId isGood) := fun _ hid => by
    rw [Function.update_of_ne fun heq => not_has_nextId (heq ▸ hid)]
  have hgrows : s.types.Grows (s.addRow row).types := .push _ _
  have hshape : ∀ {id shape}, (s.addRow row).types.shape? id = some shape →
      (id = s.types.nextId ∧ shape = row.shape) ∨ s.types.shape? id = some shape :=
    shape?_push_cases
  have hdesc : (s.addRow row).types.Descending := fun {id shape} hid other hother => by
    rcases hshape hid with ⟨rfl, rfl⟩ | hid
    · have hhas := (hlinks other (row.shape.mentions_subset_links hother)).1
      exact Nat.lt_of_lt_of_eq (has_iff.mp hhas) (eq_nextId_iff.mp rfl).symm
    · exact h.descending hid other hother
  have hkept : ∀ {t}, s.types.Has t ∧ good t → (s.addRow row).types.Has t ∧
      Function.update good s.types.nextId isGood t :=
    fun ht => ⟨hgrows.has ht.1, (hold ht.1).mpr ht.2⟩
  refine ⟨{ h with
    clear := fun {id} hid hc => ?_
    hole := fun {id} hgood => ?_
    links := fun {id other} hrefers => ?_
    origin := fun {id shape arguments node} hid ho hne hgood => ?_
    error := hkept h.error
    parameters := fun {p t} hp => ?_
    literals := fun hl => hkept (h.literals hl)
    namespaces := fun hs => hkept (h.namespaces hs)
    declared := fun {symbol t} hs => ?_
    instances := fun hs => (h.instances hs).mono hgrows hold
    pending := fun hp => (h.pending hp).mono hgrows hold
    descending := hdesc
    attempts := fun {a} ha => ?_ }, hold⟩
  · obtain ⟨found, hfound⟩ := hid
    rcases get?_push_cases hfound with ⟨rfl, -⟩ | hfound
    · rw [Function.update_self]
      exact hclear hc
    · exact (hold ⟨_, hfound⟩).mpr (h.clear ⟨_, hfound⟩ hc)
  · by_cases hnew : id = s.types.nextId
    · subst hnew
      rw [Function.update_self] at hgood
      exact hhole hgood
    · rw [Function.update_of_ne hnew] at hgood
      exact h.hole hgood
  · obtain ⟨shape, hid, hmem⟩ := hrefers
    rcases hshape hid with ⟨rfl, rfl⟩ | hid
    · obtain ⟨hhas, himp⟩ := hlinks other hmem
      rw [Function.update_self]
      exact ⟨hgrows.has hhas, fun hg => (hold hhas).mpr (himp hg)⟩
    · obtain ⟨hhas, himp⟩ := h.links ⟨shape, hid, hmem⟩
      have hself := hold (has_of_shape hid)
      exact ⟨hgrows.has hhas, fun hg => (hold hhas).mpr (himp (hself.mp hg))⟩
  · rcases hshape hid with ⟨rfl, rfl⟩ | hid
    · rw [Function.update_self]
      refine horigin ho hne ((hold.all fun a ha => ?_).mp hgood)
      exact (hlinks a (TypeShape.arguments_subset_links ho ha)).1
    · refine (hold (has_of_shape hid)).mpr (h.origin hid ho hne ?_)
      refine (hold.all fun a ha => ?_).mp hgood
      exact (h.links ⟨shape, hid, TypeShape.arguments_subset_links ho ha⟩).1
  · obtain ⟨hrow, hgood⟩ := h.parameters hp
    exact ⟨(get?_push_of_has ⟨_, hrow⟩).trans hrow, fun hne => (hold ⟨_, hrow⟩).mpr (hgood hne)⟩
  · obtain ⟨hhas, hgood⟩ := h.declared hs
    exact ⟨hgrows.has hhas, fun n hn hp => (hold hhas).mpr (hgood n hn hp)⟩
  · obtain ⟨hhas, hgood⟩ := h.attempts ha
    exact ⟨hgrows.has hhas, hgood.imp (hold hhas).mpr fun hover => hover.mono hgrows hdesc hold⟩

/-- Adding a type that is good if the condition holds or if it turns out not to reach the
parameter. -/
theorem push (row : TypeRecord) {q : Prop}
    (hgrows : (s.addRow row).types.Grows final) (hshape : row.shape ≠ .templateParameter)
    (hlinks : ∀ id ∈ row.shape.links, s.types.Has id ∧ (q → good id))
    (horigin : ∀ {arguments node}, row.shape.origin? = some (arguments, node) → arguments ≠ [] →
      (∀ a ∈ arguments, good a) → q) :
    ∃ good', Agrees s good good' ∧ Hygienic env final parameter good' (s.addRow row) ∧
      (good' s.types.nextId ↔ q ∨ IsClear final parameter s.types.nextId) := by
  have hrow : (s.addRow row).types.get? s.types.nextId = some row := get?_push_nextId _ _
  have hclosed : ∀ id ∈ row.shape.links, q ∨ IsClear final parameter s.types.nextId → good id := by
    rintro id hid (hq | hclear)
    · exact (hlinks id hid).2 hq
    · obtain ⟨shape, hfinal, hgrown⟩ := hgrows.shape (shape?_push_nextId row)
      exact h.clear (hlinks id hid).1 (hclear.of_refers ⟨shape, hfinal, hgrown.links_subset hid⟩)
  obtain ⟨hadded, hagrees⟩ := h.addRow row (q ∨ IsClear final parameter s.types.nextId) Or.inr
    (fun _ => not_isHole_of_grows hgrows hrow fun heq => absurd heq hshape)
    (fun id hid => ⟨(hlinks id hid).1, hclosed id hid⟩)
    (fun ho hne hgood => .inl (horigin ho hne hgood))
  exact ⟨_, hagrees, hadded, by rw [Function.update_self]⟩

/-- A type may refer to more types if they are as good as it is itself. -/
theorem modifyShape {f : TypeShape → TypeShape}
    (hgrown : ∀ {shape}, s.types.shape? id = some shape → shape.Grown (f shape))
    (hlinks : ∀ {shape}, s.types.shape? id = some shape → ∀ other ∈ (f shape).links,
      other ∈ shape.links ∨ s.types.Has other ∧ (good id → good other)) :
    Hygienic env final parameter good (s.modifyTypes fun types => types.modifyShape id f) := by
  have hgrows : s.types.Grows (s.modifyTypes fun types => types.modifyShape id f).types :=
    .modifyShape hgrown
  have hdesc : (s.types.modifyShape id f).Descending := by
    intro other shape hother target htarget
    obtain ⟨old, hold, rfl | ⟨rfl, rfl⟩⟩ := shape?_modifyShape_cases hother
    · exact h.descending hold target htarget
    · exact h.descending hold target ((hgrown hold).mentions ▸ htarget)
  refine { h with
    clear := fun {other} hother hclear => h.clear ?_ hclear
    links := fun {other target} ⟨shape, hother, hmem⟩ => ?_
    origin := fun {other shape arguments node} hother ho hne hgood => ?_
    error := ⟨hgrows.has h.error.1, h.error.2⟩
    parameters := fun {p t} hp => ?_
    literals := fun hl => (h.literals hl).imp_left hgrows.has
    namespaces := fun hs => (h.namespaces hs).imp_left hgrows.has
    declared := fun hs => (h.declared hs).imp_left hgrows.has
    instances := fun hs => (h.instances hs).mono hgrows .refl
    pending := fun hp => (h.pending hp).mono hgrows .refl
    descending := hdesc
    attempts := fun ha => (h.attempts ha).imp hgrows.has
      (Or.imp_right fun hover => hover.mono hgrows hdesc Agrees.refl) }
  · have hlt := has_iff.mp hother
    exact has_iff.mpr (Nat.lt_of_lt_of_eq hlt (size_modify _ _ _))
  · obtain ⟨old, hold, rfl | ⟨rfl, rfl⟩⟩ := shape?_modifyShape_cases hother
    · exact (h.links ⟨shape, hold, hmem⟩).imp_left hgrows.has
    · rcases hlinks hold target hmem with hmem | hnew
      · exact (h.links ⟨old, hold, hmem⟩).imp_left hgrows.has
      · exact hnew.imp_left hgrows.has
  · obtain ⟨old, hold, rfl | ⟨rfl, rfl⟩⟩ := shape?_modifyShape_cases hother
    · exact h.origin hold ho hne hgood
    · exact h.origin hold ((hgrown hold).origin ▸ ho) hne hgood
  · obtain ⟨hrow, hgood⟩ := h.parameters hp
    obtain ⟨shape, hrow', hgrown'⟩ := hgrows.row hrow
    cases hgrown'
    exact ⟨hrow', hgood⟩

/-- Filling namespaces leaves the links of types alone. -/
theorem filled (hfilled : Filled s s') :
    Hygienic env final parameter good s' := by
  obtain rfl | ⟨id, f, hf, rfl⟩ := hfilled
  · exact h
  · refine h.modifyShape (fun {shape} _ => .fill hf shape) fun {shape} _ other hother => .inl ?_
    cases shape with
    | namespaceType n => simp [TypeShape.links] at hother
    | _ => exact hother

/-- Recording what a symbol stands for. -/
theorem modifyLinks {symbol : SymbolId}
    {f : Links → Links} (hns : ∀ links, (f links).namespaceType = links.namespaceType)
    (hdecl : ∀ t, (f (s.linksOf symbol)).declaredType = some t →
      s.declaredType? symbol = some t ∨ s.types.Has t ∧
        ∀ n, s.bindings.symbolOf? n = some symbol →
          parameter ∉ env.tree.templateParameters n → good t)
    (hinsts : ∀ key t, (f (s.linksOf symbol)).instances.find? key = some t →
      (s.linksOf symbol).instances.find? key = some t ∨ Keyed s good key t) :
    Hygienic env final parameter good (s.modifyLinks symbol f) := by
  have hlinks := fun other => linksOf_modifyLinks s symbol other f
  refine { h with
    namespaces := fun {other t} hs => ?_
    declared := fun {other t} hs => ?_
    instances := fun {other key t} hs => ?_ }
  · rw [hlinks] at hs
    split at hs
    · exact h.namespaces ((hns _).symm.trans hs)
    · exact h.namespaces hs
  · rw [State.declaredType?, hlinks] at hs
    split at hs
    next heq =>
      subst heq
      exact (hdecl t hs).elim h.declared id
    · exact h.declared hs
  · rw [hlinks] at hs
    split at hs
    · exact (hinsts key t hs).elim h.instances id
    · exact h.instances hs

/-- Recording the type of a declaration and, for a template, an instance. -/
theorem declare {node : NodeId} {kind : NodeKind}
    {known : TypeId} {isTemplate : Bool} (hkind : env.tree.kind? node = some kind)
    (hother : kind.symbolKind? ≠ some .namespaceKind) (hknown : s.types.Has known)
    (hgood : ∀ symbol, s.bindings.symbolOf? node = some symbol →
      parameter ∉ env.tree.templateParameters node → good known)
    (hinst : isTemplate = true → Keyed s good key t) :
    Hygienic env final parameter good
      (s.declare (s.bindings.symbolOf? node) known t isTemplate key) := by
  cases hsym : s.bindings.symbolOf? node with
  | none => exact h
  | some symbol =>
    rw [State.declare]
    refine h.modifyLinks (fun _ => rfl) (fun u hu => .inr ?_) fun key' u hu => ?_
    · cases hu
      refine ⟨hknown, fun n hn hnot => hgood symbol hsym ?_⟩
      rwa [← h.consistent.eq_of_symbolOf hsym hkind hother hn]
    · cases isTemplate with
      | false => exact .inl hu
      | true =>
        rcases OrderedMap.find?_insert_cases hu with ⟨rfl, rfl⟩ | hu
        · exact .inr (hinst rfl)
        · exact .inl hu

/-- Starting to build an instance. -/
theorem addPending (node : NodeId) (ht : Keyed s good key t) :
    Hygienic env final parameter good { s with pending := s.pending.insert (node, key) t } := by
  refine { h with pending := fun {node' key' t'} hp => ?_ }
  rcases OrderedMap.find?_insert_cases hp with ⟨heq, rfl⟩ | hp
  · obtain ⟨rfl, rfl⟩ := Prod.mk.inj heq
    exact ht
  · exact h.pending hp

/-- Ending to build one. -/
theorem erasePending (entry : NodeId × List TypeId) :
    Hygienic env final parameter good { s with pending := s.pending.erase entry } :=
  { h with pending := fun hp => h.pending (OrderedMap.find?_of_find?_erase hp) }

end Hygienic

end ApiSchema.Checking
