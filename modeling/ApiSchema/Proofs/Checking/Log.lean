import ApiSchema.Proofs.Checking.Run
import ApiSchema.Proofs.Types.Heritage

/-!
# Logs

What reports, decorators and failures leave behind is in the diagnostics, the record, the attempts
and the failure: the log of a state. The core of a state is what it has besides. Merging the files
into the global namespace neither reads nor changes the log.
-/

namespace ApiSchema

/-- Whether a diagnostic is about the running of a decorator. -/
def Diagnostic.isAboutDecorator (d : Diagnostic) : Bool := d.code = 5001 || d.code = 5002

/-- The diagnostics without those about the running of decorators. -/
def Diagnostics.withoutDecorators (ds : Diagnostics) : Diagnostics :=
  ⟨ds.toList.filter fun d => !d.isAboutDecorator⟩

namespace Checking

/-- What reports, decorators and failures have left behind. -/
structure Log where
  diagnostics : Diagnostics
  record : StateMap
  attempts : List Attempt
  failure : Option CheckError

namespace State

/-- The log of a state. -/
def log (s : State) : Log := ⟨s.diagnostics, s.record, s.attempts, s.failure⟩

/-- The core of a state with a log. -/
def withLog (s : State) (log : Log) : State :=
  { s with
    diagnostics := log.diagnostics
    record := log.record
    attempts := log.attempts
    failure := log.failure }

/-- The state as if nothing had been reported, no decorator had been run and nothing had failed. -/
def core (s : State) : State := s.withLog ⟨.empty, .empty, [], none⟩

/-- A state is its core with its log. -/
theorem eq_of_core_of_log {s s' : State} (hcore : s.core = s'.core) (hlog : s.log = s'.log) :
    s = s' :=
  calc
    s = s.core.withLog s.log := rfl
    _ = s'.core.withLog s'.log := by rw [hcore, hlog]
    _ = s' := rfl

/-! ### Merging reads and changes no log -/

@[simp] theorem bindings_withLog (s : State) (log : Log) :
    (s.withLog log).bindings = s.bindings := rfl

theorem canonicalFor_withLog (s : State) (log : Log) (target : SymbolId) (name : String)
    (symbol : Symbol) :
    (s.withLog log).canonicalFor target name symbol =
      ((s.canonicalFor target name symbol).1,
        (s.canonicalFor target name symbol).2.withLog log) := by
  rw [canonicalFor, canonicalFor, bindings_withLog]
  cases Option.filter s.bindings.isNamespace _ <;> rfl

theorem enterNamespace_withLog (s : State) (log : Log) (target : SymbolId)
    (entry : String × SymbolId) (symbol : Symbol) :
    (s.withLog log).enterNamespace target entry symbol =
      ((s.enterNamespace target entry symbol).1,
        (s.enterNamespace target entry symbol).2.withLog log) := by
  rw [enterNamespace, enterNamespace, canonicalFor_withLog]
  rfl

theorem mergeEntry_withLog {mergeNested : State → SymbolTable → SymbolId → State} {log : Log}
    (hnested : ∀ s table target,
      mergeNested (s.withLog log) table target = (mergeNested s table target).withLog log)
    (target : SymbolId) (s : State) (entry : String × SymbolId) :
    mergeEntry mergeNested target (s.withLog log) entry =
      (mergeEntry mergeNested target s entry).withLog log := by
  rw [mergeEntry, mergeEntry, bindings_withLog]
  cases s.bindings.symbol? entry.2 with
  | none => rfl
  | some symbol =>
    simp only [enterNamespace_withLog]
    by_cases hns : symbol.isNamespace = true
    · rw [if_pos hns, if_pos hns]
      cases symbol.exports with
      | none => rfl
      | some exports => exact hnested ..
    · rw [if_neg hns, if_neg hns]
      rfl

theorem mergeTable_withLog (log : Log) (depth : Nat) (s : State) (source : SymbolTable)
    (target : SymbolId) :
    mergeTable depth (s.withLog log) source target =
      (mergeTable depth s source target).withLog log := by
  induction depth generalizing s source target with
  | zero => rfl
  | succ depth ih =>
    have hfold : ∀ (entries : List (String × SymbolId)) (s : State),
        entries.foldl (mergeEntry (mergeTable depth) target) (s.withLog log) =
          (entries.foldl (mergeEntry (mergeTable depth) target) s).withLog log := by
      intro entries
      induction entries with
      | nil => exact fun _ => rfl
      | cons entry entries ihentries =>
        intro s
        rw [List.foldl_cons, List.foldl_cons, mergeEntry_withLog ih, ihentries]
    rw [mergeTable, mergeTable, hfold]
    rfl

theorem mergeFiles_withLog (log : Log) (s : State) (files : List NodeId) :
    (s.withLog log).mergeFiles files = (s.mergeFiles files).withLog log := by
  induction files generalizing s with
  | nil => rfl
  | cons file files ih =>
    have hfile : (s.withLog log).mergeFile file = (s.mergeFile file).withLog log := by
      rw [mergeFile, mergeFile, bindings_withLog]
      cases s.bindings.fileExports.find? file with
      | none => rfl
      | some exports => exact mergeTable_withLog ..
    rw [mergeFiles, List.foldl_cons, hfile]
    exact ih _

end State

end Checking

end ApiSchema
