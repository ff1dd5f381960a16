import ApiSchema.Checking.Merging
import ApiSchema.Proofs.Binding.Program

/-!
# Merging keeps bindings consistent

Merging the files into the global namespace adds symbols for namespaces, gives namespaces more
declarations and enters exports into further tables of exports. None of this touches the symbols
that nodes have.
-/

namespace ApiSchema

open SymbolTable

variable {id target : SymbolId} {symbol : Symbol}

/-- To add what does not occur yet is to add everything. -/
theorem mem_foldl_new {α : Type} [DecidableEq α] {known more : List α} {a : α} :
    a ∈ more.foldl (fun known b => if b ∈ known then known else known ++ [b]) known ↔
      a ∈ known ∨ a ∈ more := by
  induction more generalizing known with
  | nil => simp
  | cons b rest ih =>
    rw [List.foldl_cons, ih, List.mem_cons]
    split
    next hmem =>
      constructor
      · exact fun h => h.imp_right Or.inr
      · rintro (h | rfl | h)
        · exact .inl h
        · exact .inl hmem
        · exact .inr h
    · simp only [List.mem_append, List.mem_singleton, or_assoc]

namespace Bindings

variable {tree : Tree} {b b' : Bindings}

namespace Merged

theorem refl (h : Consistent tree b) : Merged tree b b := ⟨h, fun _ hid => hid⟩

theorem trans {b₁ b₂ b₃ : Bindings} (h : Merged tree b₁ b₂) (h' : Merged tree b₂ b₃) :
    Merged tree b₁ b₃ :=
  ⟨h'.consistent, fun id hid => h'.shared id (h.shared id hid)⟩

theorem modifyExports {f : SymbolTable → SymbolTable} (h : Consistent tree b)
    (hf : ∀ table name found, (f table).find? name = some found →
      table.find? name = some found ∨ b.Shared found) :
    Merged tree b (b.modifyExports id f) := by
  refine ⟨h.modifyExports hf, fun other hother => ?_⟩
  rw [Shared, profile?_modifyExports]
  exact hother

end Merged

theorem profile?_of_symbol? (h : b.symbol? id = some symbol) :
    b.profile? id = some (symbol.kind, symbol.declarations) := by
  simp [profile?, h]

end Bindings

namespace Checking.State

variable {tree : Tree} {s : State}

open Bindings

/-- A reopening has the declarations that namespaces have. -/
theorem joinDeclarations_merged {canonical : SymbolId} (h : Consistent tree s.bindings)
    (hcanon : s.bindings.isNamespace canonical = true)
    (hid : s.bindings.profile? id = some (.namespaceKind, symbol.declarations)) :
    Merged tree s.bindings (s.joinDeclarations canonical symbol.declarations).bindings := by
  obtain ⟨row, hrow, hkind⟩ := exists_namespace_symbol hcanon
  have hcanonId : s.bindings.profile? canonical = some (.namespaceKind, row.declarations) := by
    simp [profile?, hrow, hkind]
  have hprof := profile?_modifyDeclarations hrow (joinNodes · symbol.declarations)
  rw [hkind] at hprof
  refine h.change (fun _ _ hold => ?_) hprof (fun n => .inl rfl) (fun n hn => ?_) (by simp)
    (fun _ n hn m outer => ?_) (fun hnil => ?_) (fun id table htable => .inr ?_) rfl rfl
  · obtain ⟨rfl, rfl⟩ := Prod.mk.inj (Option.mem_unique hcanonId hold)
    exact ⟨rfl, rfl, fun n hn => mem_foldl_new.mpr (.inl hn)⟩
  · rcases mem_foldl_new.mp hn with hn | hn
    · exact h.kind hcanonId hn
    · exact h.kind hid hn
  · rcases mem_foldl_new.mp hn with hn | hn
    · exact h.placed hcanonId hn (by simp)
    · exact h.placed hid hn (by simp)
  · have hnone : symbol.declarations = [] := List.eq_nil_iff_forall_not_mem.mpr fun n hn => by
      have hmem : n ∈ joinNodes row.declarations _ := mem_foldl_new.mpr (.inr hn)
      simp [hnil] at hmem
    exact h.undeclared (hnone ▸ hid)
  · exact (exports?_modifySymbol (by exact fun _ => rfl) _ _).symm.trans htable

section

variable (name : String) (h : Consistent tree s.bindings) (hkind : symbol.kind = .namespaceKind)
  (hid : s.bindings.profile? id = some (.namespaceKind, symbol.declarations))

include name h hkind hid

/-- A new namespace shares what there was. -/
theorem addCanonical_merged :
    Merged tree s.bindings (s.addCanonical target name symbol).2.bindings := by
  have hprof : ∀ other, ({ s.bindings with
      symbols := s.bindings.symbols.push
        (.make symbol.name symbol.kind symbol.declarations (some target)) } : Bindings).profile?
        other = if other = s.bindings.symbols.nextId then some (.namespaceKind, symbol.declarations)
      else s.bindings.profile? other := fun other => by
    rw [← hkind]
    exact profile?_push _ other
  have hadded := h.change (by simp [profile?_nextId]) hprof (fun _ => .inl rfl)
    (fun n hn => h.kind hid hn) (fun hnot => absurd rfl hnot)
    (fun _ n hn m outer => h.placed hid hn (by simp)) (fun hnil => h.undeclared (hnil ▸ hid))
    (fun other table => exports?_push) rfl rfl
  have hnew : Shared _ s.bindings.symbols.nextId :=
    ⟨.namespaceKind, symbol.declarations, (hprof _).trans (if_pos rfl), (by simp)⟩
  refine hadded.trans (Merged.modifyExports hadded.consistent fun table key found hfound => ?_)
  rw [find?_overwrite_eq] at hfound
  split at hfound
  · exact .inr (Option.some.inj hfound ▸ hnew)
  · exact .inl hfound

theorem canonicalFor_merged :
    Merged tree s.bindings (s.canonicalFor target name symbol).2.bindings := by
  rw [canonicalFor]
  split
  next existing hexist =>
    rw [Option.filter_eq_some_iff] at hexist
    exact joinDeclarations_merged h hexist.2 hid
  · exact addCanonical_merged name h hkind hid

end

/-! ### Merging tables -/

/-- Only symbols have changed. -/
def Enters (s s' : State) : Prop :=
  s' = { s with
    bindings := { s.bindings with symbols := s'.bindings.symbols }
    mergedSymbols := s'.mergedSymbols }

theorem Enters.trans {s₁ s₂ s₃ : State} (h : Enters s₁ s₂) (h' : Enters s₂ s₃) : Enters s₁ s₃ := by
  rw [Enters, h', h]

theorem mergeTable_enters (depth : Nat) (s : State) (source : SymbolTable) (target : SymbolId) :
    Enters s (mergeTable depth s source target) := by
  induction depth generalizing s source target with
  | zero => rfl
  | succ depth ih =>
    refine Enters.trans ?_ rfl
    refine List.foldlRecOn source.bound.entries _ rfl fun s' hs' entry _ => hs'.trans ?_
    have hent : ∀ symbol, Enters s' (s'.enterNamespace target entry symbol).2 := by
      intro symbol
      simp only [enterNamespace, canonicalFor]
      split <;> rfl
    rw [mergeEntry]
    split
    · rfl
    · split
      · dsimp only
        split
        · exact hent _
        · exact (hent _).trans (ih ..)
      · rfl

/-- Merging changes nothing but symbols. -/
theorem mergeFiles_enters (s : State) (files : List NodeId) : Enters s (s.mergeFiles files) := by
  refine List.foldlRecOn files _ rfl fun s' hs' file _ => hs'.trans ?_
  rw [mergeFile]
  split
  · rfl
  · exact mergeTable_enters ..

/-- So does the merge of an entry. -/
theorem mergeEntry_merged {mergeNested : State → SymbolTable → SymbolId → State}
    {entry : String × SymbolId} (target : SymbolId) (h : Consistent tree s.bindings)
    (hentry : s.bindings.Shared entry.2)
    (hnested : ∀ (s : State) (source : SymbolTable) (target : SymbolId),
      Consistent tree s.bindings → (∀ e ∈ source.bound.entries, s.bindings.Shared e.2) →
      Merged tree s.bindings (mergeNested s source target).bindings) :
    Merged tree s.bindings (mergeEntry mergeNested target s entry).bindings := by
  rw [mergeEntry]
  split
  · exact .refl h
  next symbol hsym =>
    split
    next hns =>
      have hkind : symbol.kind = .namespaceKind := by simpa [Symbol.isNamespace] using hns
      have hid : s.bindings.profile? entry.2 = some (.namespaceKind, symbol.declarations) := by
        rw [profile?_of_symbol? hsym, hkind]
      have hent : Merged tree s.bindings (s.enterNamespace target entry symbol).2.bindings :=
        canonicalFor_merged entry.1 h hkind hid
      cases hexp : symbol.exports with
      | none => exact hent
      | some exports =>
        refine hent.trans (hnested _ exports _ hent.consistent fun e he => ?_)
        have hof : s.bindings.exports? entry.2 = some exports := by
          simp [exports?, hsym, hexp]
        exact hent.shared _ (h.exports hof (find?_of_mem_entries he))
    · refine Merged.modifyExports h fun table name found hfound => ?_
      rcases find?_set hfound with rfl | hfound
      · exact .inr hentry
      · exact .inl hfound

/-- So does that of a table. -/
theorem mergeTable_merged (depth : Nat) {source : SymbolTable} (target : SymbolId)
    (h : Consistent tree s.bindings)
    (hsource : ∀ entry ∈ source.bound.entries, s.bindings.Shared entry.2) :
    Merged tree s.bindings (mergeTable depth s source target).bindings := by
  induction depth generalizing s source target with
  | zero => exact .refl h
  | succ depth ih =>
    have hentries : ∀ (entries : List (String × SymbolId)) (s : State),
        Consistent tree s.bindings → (∀ entry ∈ entries, s.bindings.Shared entry.2) →
        Merged tree s.bindings (entries.foldl (mergeEntry (mergeTable depth) target) s).bindings := by
      intro entries
      induction entries with
      | nil => exact fun s h _ => .refl h
      | cons entry rest ihrest =>
        intro s h hshared
        have hstep := mergeEntry_merged target h (hshared entry (.head _))
          fun _ _ target => ih target
        refine hstep.trans (ihrest _ hstep.consistent fun e he => ?_)
        exact hstep.shared _ (hshared e (.tail _ he))
    have hmerged := hentries source.bound.entries s h hsource
    rw [mergeTable]
    refine hmerged.trans (Merged.modifyExports hmerged.consistent
      fun table name found hfound => .inl ?_)
    rwa [find?_foldl_recordDuplicates] at hfound

/-- Merging the files keeps the bindings consistent. -/
theorem mergeFiles_merged (files : List NodeId) (h : Consistent tree s.bindings) :
    Merged tree s.bindings (s.mergeFiles files).bindings := by
  rw [mergeFiles]
  induction files generalizing s with
  | nil => exact .refl h
  | cons file rest ih =>
    have hstep : Merged tree s.bindings (s.mergeFile file).bindings := by
      rw [mergeFile]
      split
      · exact .refl h
      next exports hexp =>
        exact mergeTable_merged _ _ h fun e he =>
          h.fileExports hexp (find?_of_mem_entries he)
    exact hstep.trans (ih hstep.consistent)

end Checking.State

end ApiSchema
