import ApiSchema.Proofs.Checking.Answers
import ApiSchema.Proofs.Decorating.Noninterference

/-!
# Candidates for names

Properties and operations are entered under their names, one after the other, and the first of each
name is kept. What becomes of a list of candidates is told here once, together with what has to be
known of copies and of reports.
-/

namespace ApiSchema

open TypeTable Diagnostics

/-- A type that was not there before is a copy of a property. -/
structure TypeTable.Copied (before after : TypeTable) (original copy : TypeId) : Prop where
  fresh : ¬ before.Has copy
  row : ∃ node p, before.get? original = some ⟨node, .property p⟩ ∧
    after.get? copy = some ⟨node, .property { p with source := some original }⟩

/-- The diagnostics with one of the codes. -/
def Diagnostics.about (codes : List Nat) (ds : Diagnostics) : List Diagnostic :=
  ds.toList.filter fun d => d.code ∈ codes

namespace Checking

/-- Something that is to be entered under a name, for the sake of a node, unless the name is taken
or is one of those that are barred. -/
structure Candidate (α : Type) where
  name : String
  value : α
  place : NodeId
  barred : List String

/-- Why a candidate is rejected. -/
inductive Rejection where
  | taken
  | barred
  deriving DecidableEq

/-- The entries that have been made and the candidates that have been rejected, in order. -/
structure Selection (α : Type) where
  entries : List (String × α)
  rejected : List (Candidate α × Rejection)

namespace Selection

variable {α : Type}

def names (selection : Selection α) : List String := selection.entries.map Prod.fst

/-- Enters a candidate unless its name is taken or barred. -/
def add (selection : Selection α) (c : Candidate α) : Selection α :=
  if c.name ∈ selection.names then
    { selection with rejected := selection.rejected ++ [(c, .taken)] }
  else if c.name ∈ c.barred then
    { selection with rejected := selection.rejected ++ [(c, .barred)] }
  else { selection with entries := selection.entries ++ [(c.name, c.value)] }

/-- What becomes of candidates that come one after the other. -/
def of (candidates : List (Candidate α)) : Selection α := candidates.foldl add ⟨[], []⟩

/-- What is reported of the candidates that have been rejected. -/
def reports (selection : Selection α) (tree : Tree) (message : Rejection → Message) :
    List Diagnostic :=
  selection.rejected.map fun r => diagnosticAt tree (message r.2) [r.1.name] (some r.1.place)

end Selection

/-- Properties as candidates for their names. -/
def candidates (types : TypeTable) (place : NodeId) (barred : List String)
    (properties : List TypeId) : List (Candidate TypeId) :=
  properties.filterMap fun id => (types.property? id).map fun p => ⟨p.name, id, place, barred⟩

variable {α : Type} {env : Environment} {s s' : State} {codes : List Nat}

theorem Frame.copied {own : Option TypeId} {before : TypeTable} {original copy : TypeId}
    (h : Frame own s s') (hown : ∀ t ∈ own, before.Has t)
    (hcopied : before.Copied s.types original copy) : before.Copied s'.types original copy := by
  obtain ⟨node, p, hp, hrow⟩ := hcopied.row
  exact ⟨hcopied.fresh, node, p, hp, h.kept hrow (fun heq => hcopied.fresh (hown _ heq)) rfl⟩

/-! ### Reports -/

/-- A run that reports nothing with one of the codes. -/
theorem Tells.about {x : CheckM α} {a : α} (h : Tells env (·.code ∉ codes) x)
    (hrun : x env s = some (a, s')) : s'.diagnostics.about codes = s.diagnostics.about codes := by
  obtain ⟨more, hmore, hcodes⟩ := h _ _ _ hrun
  have hnone : more.filter (fun d => d.code ∈ codes) = [] :=
    List.filter_eq_nil_iff.mpr fun d hd hcode => hcodes d hd (of_decide_eq_true hcode)
  rw [Diagnostics.about, Diagnostics.about, hmore, List.filter_append, hnone, List.append_nil]

theorem about_add {message : Message} (h : message.code ∈ codes) (ds : Diagnostics) (tree : Tree)
    (arguments : List String) (node : Option NodeId) :
    (ds.add (diagnosticAt tree message arguments node)).about codes =
      ds.about codes ++ [diagnosticAt tree message arguments node] := by
  simp [about, add, code_diagnosticAt, h]

theorem reports_reject (selection : Selection α) (c : Candidate α) (rejection : Rejection) (tree : Tree)
    (message : Rejection → Message) :
    Selection.reports { selection with rejected := selection.rejected ++ [(c, rejection)] } tree message =
      selection.reports tree message ++
        [diagnosticAt tree (message rejection) [c.name] (some c.place)] := by
  simp [Selection.reports]

theorem runDecorator_tells (t : TypeId) (application : DecoratorApplication) :
    Tells env (5000 < ·.code) (runDecorator t application) := fun s _ s' hrun => by
  obtain ⟨-, rfl⟩ := Prod.mk.inj (Option.mem_unique (runDecorator_eq ..) hrun)
  rcases s.log.diagnostics_decorate with heq | ⟨d, habout, heq⟩
  · exact ⟨[], by rw [List.append_nil]; exact congrArg toList heq, by simp⟩
  · refine ⟨[d], congrArg toList heq, fun d' hd' => ?_⟩
    obtain rfl := List.mem_singleton.mp hd'
    have hcode : d'.code = 5001 ∨ d'.code = 5002 := by
      simpa [Diagnostic.isAboutDecorator] using habout
    change 5000 < d'.code
    omega

/-- Running decorators reports only what is about them. -/
theorem finishIf_tells (finish : Bool) (t : TypeId) :
    Tells env (5000 < ·.code) (finishIf finish t) := by
  rw [finishIf]
  split
  · exact .getTypes_bind fun _ => .bind (.modify fun _ => rfl) fun _ =>
      .forM (fun _ => runDecorator_tells _ _) _
  · exact .pure _

theorem copyProperty_tells (finish : Bool) (source : TypeId) :
    Tells env (5000 < ·.code) (copyProperty finish source) := by
  refine .getTypes_bind fun types => ?_
  split
  · exact .pure _
  · exact .getTypes_bind fun _ => .bind (.addType _ _) fun _ =>
      .bind (finishIf_tells _ _) fun _ => .pure _

/-- A copy of a property is new. -/
theorem copyProperty_copied {before : State} {node : Option NodeId} {p : PropertyType} {finish : Bool}
    {source copy : TypeId} (hframe : Frame none before s)
    (hrow : before.types.get? source = some ⟨node, .property p⟩)
    (hrun : copyProperty finish source env s = some (copy, s')) :
    before.types.Copied s'.types source copy := by
  have hrow₁ : s.types.get? source = some ⟨node, .property p⟩ := hframe.kept hrow (by simp) rfl
  have hp : s.types.property? source = some p := by
    simp [property?, shape?, hrow₁]
  have hnode : s.types.node? source = node := by simp [node?, hrow₁]
  rcases copyProperty_cases hrun with ⟨hnone, -, -⟩ | ⟨q, hq, rfl, hfin⟩
  · simp [hp] at hnone
  · obtain rfl := Option.mem_unique hp hq
    refine ⟨fun hhas => not_has_nextId (hframe.grows.has hhas), node, p, hrow, ?_⟩
    rw [hfin.types, hnode]
    exact Table.get?_push_nextId _ _

end Checking

end ApiSchema
