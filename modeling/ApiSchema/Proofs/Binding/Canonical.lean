import ApiSchema.Proofs.Binding.Merging
import ApiSchema.Proofs.Binding.Situated

/-!
# Canonical namespaces

Merging adds symbols that stand for namespaces in all files. These canonical namespaces and the
global one form a tree apart from the namespaces of the files: a namespace that one of them exports
is canonical too, has the exporting one as its parent and is exported under its name. The symbols of
the files are read and left as they are.
-/

namespace ApiSchema

open Table Option

variable {id canonical target owner other entered : SymbolId} {s' : State} {symbol : Symbol}
  {scope : BindingScope} {name : String}

namespace Bindings

variable {b : Bindings}

/-- The global namespace and the symbols that were added after binding. -/
def Canonical (bound : Bindings) (id : SymbolId) : Prop :=
  id = globalSymbol ∨ bound.symbols.size ≤ id.index

theorem symbol?_modifySymbol (id other : SymbolId) (f : Symbol → Symbol) :
    (b.modifySymbol id f).symbol? other =
      if other = id then (b.symbol? other).map f else b.symbol? other :=
  get?_modify _ _ _ _

theorem binding?_overwrite (hopen : (b.exports? owner).isSome = true) (name : String)
    (symbol : SymbolId) (scope : BindingScope) (key : String) :
    (b.modifyExports owner fun table => table.overwrite name symbol).binding? scope key =
      if scope = .namespaceScope owner ∧ key = name then some symbol else b.binding? scope key := by
  obtain ⟨table, htable⟩ := isSome_iff_exists.mp hopen
  cases scope with
  | file file => rfl
  | namespaceScope other =>
    simp only [binding?, scopeTable?, exports?_modifyExports_eq, BindingScope.namespaceScope.injEq]
    by_cases heq : other = owner
    · subst heq
      simp [htable, SymbolTable.find?_overwrite_eq]
    · simp [heq]

theorem isSome_exports?_modifySymbol {f : Symbol → Symbol}
    (hf : ∀ symbol, (f symbol).exports.isSome = symbol.exports.isSome) (id other : SymbolId) :
    ((b.modifySymbol id f).exports? other).isSome = (b.exports? other).isSome := by
  rw [exports?, symbol?_modifySymbol, exports?]
  split
  · cases b.symbol? other <;> simp [hf]
  · rfl

theorem identity?_modifyExports (id other : SymbolId) (f : SymbolTable → SymbolTable) :
    (b.modifyExports id f).identity? other = b.identity? other := by
  rw [modifyExports, identity?_modifySymbol]
  exact fun _ => rfl

end Bindings

namespace Checking

open Bindings

variable {tree : Tree} {bound : Bindings} {s : State}

/-- What a state in which files are being merged has in common with the bindings of the files, and
how its canonical namespaces hang together. -/
structure Unified (bound : Bindings) (s : State) : Prop where
  size_le : bound.symbols.size ≤ s.bindings.symbols.size
  fileExports : s.bindings.fileExports = bound.fileExports
  old {id : SymbolId} : ¬ bound.Canonical id → s.bindings.symbol? id = bound.symbol? id
  global : s.bindings.identity? globalSymbol = some ⟨"", .namespaceKind, none⟩
  exports {id : SymbolId} : bound.Canonical id → s.bindings.isNamespace id = true →
    (s.bindings.exports? id).isSome = true
  child {id inner : SymbolId} {name : String} : bound.Canonical id →
    s.bindings.binding? (.namespaceScope id) name = some inner →
    s.bindings.isNamespace inner = true → bound.symbols.size ≤ inner.index ∧
      s.bindings.identity? inner = some ⟨name, .namespaceKind, some id⟩
  leaf {id inner : SymbolId} {name : String} : bound.Canonical id →
    s.bindings.binding? (.namespaceScope id) name = some inner →
    s.bindings.isNamespace inner = false → ¬ bound.Canonical inner
  merged {id canonical : SymbolId} : s.mergedSymbols.find? id = some canonical →
    ¬ bound.Canonical id ∧ bound.isNamespace id = true ∧ bound.symbols.size ≤ canonical.index ∧
      s.bindings.isNamespace canonical = true

theorem identity?_joinDeclarations (s : State) (canonical : SymbolId) (declarations : List NodeId)
    (id : SymbolId) : (s.joinDeclarations canonical declarations).bindings.identity? id =
      s.bindings.identity? id := by
  rw [State.joinDeclarations, identity?_modifySymbol]
  exact fun _ => rfl

theorem exports?_joinDeclarations (s : State) (canonical : SymbolId) (declarations : List NodeId)
    (id : SymbolId) : (s.joinDeclarations canonical declarations).bindings.exports? id =
      s.bindings.exports? id := by
  rw [State.joinDeclarations, exports?_modifySymbol]
  exact fun _ => rfl

theorem binding?_joinDeclarations (s : State) (canonical : SymbolId) (declarations : List NodeId)
    (scope : BindingScope) (name : String) :
    (s.joinDeclarations canonical declarations).bindings.binding? scope name =
      s.bindings.binding? scope name := by
  apply binding?_congr
  · rfl
  · exact exports?_joinDeclarations s canonical declarations

theorem isNamespace_joinDeclarations (s : State) (canonical : SymbolId)
    (declarations : List NodeId) (id : SymbolId) :
    (s.joinDeclarations canonical declarations).bindings.isNamespace id =
      s.bindings.isNamespace id :=
  isNamespace_congr (identity?_joinDeclarations s canonical declarations id)

/-- What belongs to a namespace of a file is no canonical namespace. -/
theorem not_canonical_of_parent {i : Symbol.Identity} (hsit : Situated tree bound)
    (hi : bound.identity? id = some i) (hpar : i.parent = some owner) : ¬ bound.Canonical id := by
  rintro (rfl | hle)
  · obtain rfl := mem_unique hsit.global_identity hi
    simp at hpar
  · exact absurd (index_lt_size hi) (Nat.not_lt.mpr hle)

/-- What a table of a file holds is no canonical namespace and is held under its name. -/
theorem old_of_entry (hsit : Situated tree bound)
    (hentry : bound.binding? scope name = some id) :
    ¬ bound.Canonical id ∧ ∃ i, bound.identity? id = some i ∧ i.name = name := by
  obtain ⟨i, hi, hname, hpar, -⟩ := hsit.entry hentry
  exact ⟨not_canonical_of_parent hsit hi hpar, i, hi, hname⟩

/-- What is merged with nothing stands for itself. -/
theorem State.mergedSymbol_eq_self (h : ∀ canonical, s.mergedSymbols.find? id ≠ some canonical) :
    s.mergedSymbol id = id := by
  rw [State.mergedSymbol, eq_none_iff_forall_ne_some.mpr h, getD_none]

/-- The exports of a namespace change. -/
abbrev State.modifyExports (s : State) (target : SymbolId) (f : SymbolTable → SymbolTable) : State :=
  { s with bindings := s.bindings.modifyExports target f }

namespace Unified

/-- Before merging there are no canonical namespaces but the global one. -/
theorem initial (hc : tree.Complete) (hsit : Situated tree bound) (hb : s.bindings = bound)
    (hmerged : s.mergedSymbols = .empty) : Unified bound s := by
  have hcanon : ∀ {id : SymbolId}, bound.Canonical id → (bound.symbol? id).isSome = true →
      id = globalSymbol := by
    rintro id (rfl | hle) hsome
    · rfl
    · have hnone : bound.symbols.get? id = none := get?_eq_none_iff.mpr hle
      simp [symbol?, hnone] at hsome
  have hentry : ∀ {id inner : SymbolId} {name : String},
      bound.binding? (.namespaceScope id) name = some inner → (bound.symbol? id).isSome = true := by
    intro id inner name hinner
    obtain ⟨table, htable, -⟩ := bind_eq_some_iff.mp hinner
    obtain ⟨symbol, hsym, -⟩ := bind_eq_some_iff.mp htable
    simp [hsym]
  rw [← hb] at hsit hcanon hentry ⊢
  refine ⟨Nat.le_refl _, rfl, fun _ => rfl, hsit.global_identity,
    fun _ hid => hsit.exports hid, fun {id inner name} hid hinner hns => ?_,
    fun {id inner name} hid hinner hnot => ?_, fun hmem => ?_⟩
  · obtain rfl := hcanon hid (hentry hinner)
    simp [hsit.isNamespace_global_entry hc hinner] at hns
  · exact (old_of_entry hsit hinner).1
  · simp [hmerged] at hmem

variable (h : Unified bound s)

include h

theorem identity_old (hid : ¬ bound.Canonical id) :
    s.bindings.identity? id = bound.identity? id := by
  rw [identity?, identity?, h.old hid]

theorem isNamespace_old (hid : ¬ bound.Canonical id) :
    s.bindings.isNamespace id = bound.isNamespace id := by
  rw [isNamespace, isNamespace, h.old hid]

theorem not_canonical_nextId_of_old (hid : ¬ bound.Canonical id) :
    id ≠ s.bindings.symbols.nextId := by
  rintro rfl
  exact hid (.inr h.size_le)

theorem congr (hsyms : s'.bindings.symbols = s.bindings.symbols)
    (hfileExp : s'.bindings.fileExports = s.bindings.fileExports)
    (hmerged : s'.mergedSymbols = s.mergedSymbols) : Unified bound s' := by
  obtain ⟨b⟩ := s
  obtain ⟨b'⟩ := s'
  cases b
  cases b'
  dsimp only at hsyms hfileExp hmerged
  subst hsyms hfileExp hmerged
  exact { h with }

/-- Canonical namespaces stand for themselves. -/
theorem mergedSymbol_canonical (hid : bound.Canonical id) :
    s.mergedSymbol id = id :=
  State.mergedSymbol_eq_self fun _ hfind => (h.merged hfind).1 hid

theorem mergedSymbol_global : s.mergedSymbol globalSymbol = globalSymbol :=
  h.mergedSymbol_canonical (.inl rfl)

/-! ### What merging does -/

/-- A canonical namespace changes, but for its identity and the namespaces among its exports. -/
theorem modifySymbol {f : Symbol → Symbol} (htarget : bound.Canonical target)
    (hident : ∀ symbol, (f symbol).identity = symbol.identity)
    (hopen : ∀ symbol, (f symbol).exports.isSome = symbol.exports.isSome)
    (hentry : ∀ {id inner name}, bound.Canonical id →
      (s.bindings.modifySymbol target f).binding? (.namespaceScope id) name = some inner →
      s.bindings.binding? (.namespaceScope id) name = some inner ∨
        ¬ bound.Canonical inner ∧ s.bindings.isNamespace inner = false) :
    Unified bound { s with bindings := s.bindings.modifySymbol target f } := by
  have hident := identity?_modifySymbol (b := s.bindings) hident target
  have hns : ∀ id, (s.bindings.modifySymbol target f).isNamespace id =
      s.bindings.isNamespace id := fun id => isNamespace_congr (hident id)
  refine ⟨?_, h.fileExports, fun {id} hid => ?_, (hident _).trans h.global,
    fun {id} hid hisNs => ?_, fun {id inner name} hid hinner hisNs => ?_,
    fun {id inner name} hid hinner hnot => ?_, fun hmerged => ?_⟩
  · exact Nat.le_trans h.size_le (Nat.le_of_eq (size_modify _ _ _).symm)
  · have hne : id ≠ target := fun heq => hid (heq ▸ htarget)
    exact (symbol?_modifySymbol _ _ _).trans ((if_neg hne).trans (h.old hid))
  · rw [hns] at hisNs
    exact (isSome_exports?_modifySymbol hopen _ _).trans (h.exports hid hisNs)
  · rw [hns] at hisNs
    rw [hident]
    rcases hentry hid hinner with hold | ⟨-, hnot⟩
    · exact h.child hid hold hisNs
    · simp [hnot] at hisNs
  · rw [hns] at hnot
    rcases hentry hid hinner with hold | ⟨hnew, -⟩
    · exact h.leaf hid hold hnot
    · exact hnew
  · rw [hns]
    exact h.merged hmerged

/-- Only the declarations of a canonical namespace change. -/
theorem joinDeclarations (hcanon : bound.symbols.size ≤ canonical.index)
    (declarations : List NodeId) : Unified bound (s.joinDeclarations canonical declarations) :=
  h.modifySymbol (.inr hcanon) (fun _ => rfl) (fun _ => rfl)
    fun _ hinner => .inl ((binding?_joinDeclarations ..).symm.trans hinner)

/-- A new canonical namespace. -/
theorem addCanonical (htarget : bound.Canonical target)
    (hopen : s.bindings.isNamespace target = true) (hkind : symbol.kind = .namespaceKind) :
    Unified bound (s.addCanonical target symbol.name symbol).2 ∧
      (∀ id, (s.addCanonical target symbol.name symbol).2.bindings.identity? id =
        if id = s.bindings.symbols.nextId then some ⟨symbol.name, .namespaceKind, some target⟩
        else s.bindings.identity? id) ∧
      ∀ scope key, (s.addCanonical target symbol.name symbol).2.bindings.binding? scope key =
        if scope = .namespaceScope target ∧ key = symbol.name then some s.bindings.symbols.nextId
        else s.bindings.binding? scope key := by
  have hexportsTarget := h.exports htarget hopen
  refine (and_iff_right_of_imp ?_).mpr ⟨fun id => ?_, fun scope key => ?_⟩
  · rintro ⟨hident, hentry⟩
    have hnew : bound.symbols.size ≤ s.bindings.symbols.nextId.index := h.size_le
    have hold : ∀ {id i}, s.bindings.identity? id = some i →
        (s.addCanonical target symbol.name symbol).2.bindings.identity? id = some i := fun hi => by
      rw [hident, if_neg (ne_nextId hi), hi]
    have hns : ∀ {id i}, s.bindings.identity? id = some i →
        (s.addCanonical target symbol.name symbol).2.bindings.isNamespace id =
          s.bindings.isNamespace id := fun hi => isNamespace_congr ((hold hi).trans hi.symm)
    refine ⟨?_, h.fileExports, fun {id} hid => ?_, hold h.global, fun {id} hid hisNs => ?_,
      fun {id inner name} hid hinner hisNs => ?_, fun {id inner name} hid hinner hnot => ?_,
      fun hmerged => ?_⟩
    · refine Nat.le_trans h.size_le (Nat.le_trans (Nat.le_succ _) (Nat.le_of_eq ?_))
      exact ((size_modify _ _ _).trans (size_push _ _)).symm
    · have hne : id ≠ target := fun heq => hid (heq ▸ htarget)
      refine (symbol?_modifySymbol _ _ _).trans ((if_neg hne).trans ?_)
      refine (get?_push _ _ _).trans ((if_neg fun heq => ?_).trans (h.old hid))
      exact h.not_canonical_nextId_of_old hid (eq_nextId_iff.mpr heq)
    · have hexp : ((s.addCanonical target symbol.name symbol).2.bindings.exports? id).isSome =
          (if id = s.bindings.symbols.nextId then some SymbolTable.empty
            else s.bindings.exports? id).isSome := by
        refine (isSome_exports?_modifySymbol (fun _ => isSome_map) _ _).trans
          (congrArg Option.isSome ((exports?_push_eq _ id).trans ?_))
        rw [hkind]
        rfl
      obtain ⟨i, hi, hkind'⟩ := isNamespace_iff.mp hisNs
      rw [hexp]
      rw [hident] at hi
      split at hi
      next heq =>
        rw [if_pos heq]
        rfl
      next hne =>
        rw [if_neg hne]
        exact h.exports hid (isNamespace_iff.mpr ⟨i, hi, hkind'⟩)
    · rw [hentry] at hinner
      split at hinner
      next heq =>
        obtain ⟨hscope, rfl⟩ := heq
        cases hscope
        cases hinner
        exact ⟨hnew, (hident _).trans (if_pos rfl)⟩
      · cases hinnerNs : s.bindings.isNamespace inner with
        | true =>
          obtain ⟨hle, hi⟩ := h.child hid hinner hinnerNs
          exact ⟨hle, hold hi⟩
        | false =>
          have hnot := h.leaf hid hinner hinnerNs
          rw [isNamespace_congr ((hident inner).trans
            (if_neg (h.not_canonical_nextId_of_old hnot))), hinnerNs] at hisNs
          simp at hisNs
    · rw [hentry] at hinner
      split at hinner
      · cases hinner
        have hyes := isNamespace_iff.mpr ⟨_, (hident _).trans (if_pos rfl), rfl⟩
        simp [hyes] at hnot
      · cases hinnerNs : s.bindings.isNamespace inner with
        | true =>
          obtain ⟨-, hi⟩ := h.child hid hinner hinnerNs
          simp [hns hi, hinnerNs] at hnot
        | false => exact h.leaf hid hinner hinnerNs
    · obtain ⟨hid, hboundNs, hle, hcanon⟩ := h.merged hmerged
      obtain ⟨i, hi, -⟩ := isNamespace_iff.mp hcanon
      exact ⟨hid, hboundNs, hle, (hns hi).trans hcanon⟩
  · rw [← hkind]
    exact (identity?_modifyExports _ _ _).trans (identity?_push _ id)
  · refine (binding?_overwrite ?_ _ _ scope key).trans ?_
    · exact (congrArg Option.isSome (exports?_push_of_ne _ (ne_nextId_of_exports
        hexportsTarget))).trans hexportsTarget
    · exact congrArg (ite _ _) (binding?_push _ _ _ _ scope key)

/-- A canonical namespace stands for a namespace of a file. -/
theorem mark (hid : ¬ bound.Canonical id) (hns : bound.isNamespace id = true)
    (hcanon : bound.symbols.size ≤ canonical.index)
    (hcanonNs : s.bindings.isNamespace canonical = true) :
    Unified bound { s with mergedSymbols := s.mergedSymbols.insert id canonical } := by
  refine { h with merged := fun {other found} hfound => ?_ }
  rcases OrderedMap.find?_insert_cases hfound with ⟨rfl, rfl⟩ | hfound
  · exact ⟨hid, hns, hcanon, hcanonNs⟩
  · exact h.merged hfound

end Unified

/-! ### Merging tables -/

/-- A namespace of a file has been entered under its name in `target`, where it is the canonical
namespace of that name: one that was there, or a new one. -/
structure Admitted (s s' : State) (target : SymbolId) (name : String) (id canonical : SymbolId) :
    Prop where
  found : s'.bindings.binding? (.namespaceScope target) name = some canonical
  isNamespace : s'.bindings.isNamespace canonical = true
  mergedSymbols : s'.mergedSymbols = s.mergedSymbols.insert id canonical
  entries : ((∀ scope key, s'.bindings.binding? scope key = s.bindings.binding? scope key) ∧
      ∀ other, s'.bindings.isNamespace other = s.bindings.isNamespace other) ∨
    canonical = s.bindings.symbols.nextId ∧
      (s.bindings.binding? (.namespaceScope target) name).filter s.bindings.isNamespace = none ∧
      (∀ scope key, s'.bindings.binding? scope key =
        if scope = .namespaceScope target ∧ key = name then some canonical
        else s.bindings.binding? scope key) ∧
      ∀ other, other ≠ canonical → s'.bindings.isNamespace other = s.bindings.isNamespace other

/-- A namespace joins the one of its path. -/
theorem Unified.enterNamespace (h : Unified bound s) (hsit : Situated tree bound)
    (htarget : bound.Canonical target) (hopen : s.bindings.isNamespace target = true)
    (hentry : bound.binding? scope name = some id) (hsym : s.bindings.symbol? id = some symbol)
    (hns : symbol.isNamespace = true) :
    Unified bound (s.enterNamespace target (name, id) symbol).2 ∧
      Admitted s (s.enterNamespace target (name, id) symbol).2 target name id
        (s.enterNamespace target (name, id) symbol).1 := by
  obtain ⟨hold, i, hi, hname⟩ := old_of_entry hsit hentry
  have hboundSymbol : bound.symbol? id = some symbol := (h.old hold).symm.trans hsym
  have hkind : symbol.kind = .namespaceKind := of_decide_eq_true hns
  obtain rfl : symbol.name = name := by
    rw [identity?, hboundSymbol] at hi
    rw [← hname, ← Option.some.inj hi]
    rfl
  have hboundNs : bound.isNamespace id = true := by
    simp [isNamespace, hboundSymbol, hns]
  simp only [State.enterNamespace, State.canonicalFor]
  cases hexist : ((s.bindings.exports? target).bind fun table =>
      table.find? symbol.name).filter s.bindings.isNamespace with
  | some existing =>
    obtain ⟨hfound, hexistNs⟩ := filter_eq_some_iff.mp hexist
    obtain ⟨hle, -⟩ := h.child htarget hfound hexistNs
    have hjoined := h.joinDeclarations hle symbol.declarations
    refine ⟨hjoined.mark hold hboundNs hle ?_, ?_, ?_, rfl, Or.inl ⟨?_, ?_⟩⟩
    · rw [isNamespace_joinDeclarations, hexistNs]
    · exact (binding?_joinDeclarations _ _ _ _ _).trans hfound
    · exact (isNamespace_joinDeclarations _ _ _ _).trans hexistNs
    · exact binding?_joinDeclarations s existing symbol.declarations
    · exact isNamespace_joinDeclarations s existing symbol.declarations
  | none =>
    obtain ⟨hadded, hident, hentries⟩ := h.addCanonical htarget hopen hkind
    have hnew : (s.addCanonical target symbol.name symbol).2.bindings.isNamespace
        s.bindings.symbols.nextId = true :=
      isNamespace_iff.mpr ⟨_, (hident _).trans (if_pos rfl), rfl⟩
    refine ⟨hadded.mark hold hboundNs h.size_le hnew, ?_, hnew, rfl,
      Or.inr ⟨rfl, hexist, hentries, fun other hne => ?_⟩⟩
    · exact (hentries _ _).trans (if_pos ⟨rfl, rfl⟩)
    · exact isNamespace_congr ((hident other).trans (if_neg hne))

/-- Something else than a namespace is entered, unless the name is taken. -/
theorem Unified.addLeaf (h : Unified bound s) (hsit : Situated tree bound)
    (htarget : bound.Canonical target) (hopen : s.bindings.isNamespace target = true)
    (hentry : bound.binding? scope name = some id) (hleaf : bound.isNamespace id = false) :
    Unified bound (s.modifyExports target (·.set name id)) ∧
      ∀ other key, (s.modifyExports target (·.set name id)).bindings.binding? other key =
        if other = .namespaceScope target ∧ key = name then
          (s.bindings.binding? (.namespaceScope target) name).or (some id)
        else s.bindings.binding? other key := by
  obtain ⟨hold, -⟩ := old_of_entry hsit hentry
  refine (and_iff_right_of_imp fun hentries => ?_).mpr fun other key => ?_
  case refine_2 =>
    change (s.bindings.claim (.namespaceScope target) name id).binding? other key = _
    refine binding?_claim (fun owner howner => ?_) name id other key
    cases howner
    exact h.exports htarget hopen
  refine h.modifySymbol htarget (fun _ => rfl) (fun _ => isSome_map) fun {c inner key} _ hinner => ?_
  have hinner' := (hentries _ _).symm.trans hinner
  split at hinner'
  next heq =>
    rcases or_eq_some_iff.mp hinner' with hinner' | ⟨-, hinner'⟩
    · rw [heq.1, heq.2]
      exact .inl hinner'
    · cases hinner'
      exact .inr ⟨hold, (h.isNamespace_old hold).trans hleaf⟩
  · exact .inl hinner'

/-- Contested names are noted. -/
theorem Unified.noteDuplicates (h : Unified bound s) (htarget : bound.Canonical target)
    (duplicates : List (String × List SymbolId)) {f : SymbolTable → SymbolTable} (hf : f = fun table =>
      duplicates.foldl (fun table entry => table.recordDuplicates entry.1 entry.2) table) :
    Unified bound (s.modifyExports target f) ∧ ∀ scope key,
      (s.modifyExports target f).bindings.binding? scope key = s.bindings.binding? scope key := by
  refine (and_iff_right_of_imp fun hentries => ?_).mpr fun scope key => ?_
  · exact h.modifySymbol htarget (fun _ => rfl) (fun _ => isSome_map) fun _ hinner => .inl ((hentries _ _).symm.trans hinner)
  · subst hf
    cases scope with
    | file file => rfl
    | namespaceScope owner =>
      simp only [binding?, scopeTable?, exports?_modifyExports_eq]
      split
      · cases s.bindings.exports? owner with
        | none => rfl
        | some table => exact SymbolTable.find?_foldl_recordDuplicates duplicates
      · rfl

/-- Some canonical namespace stands for a namespace. -/
def State.Joined (s : State) (id : SymbolId) : Prop :=
  id = globalSymbol ∨ (s.mergedSymbols.find? id).isSome = true

theorem State.mergedSymbol_of_find (h : s.mergedSymbols.find? id = some canonical) :
    s.mergedSymbol id = canonical := by
  rw [State.mergedSymbol, h, getD_some]

/-- What is no namespace stands for itself. -/
theorem Unified.mergedSymbol_of_leaf (h : Unified bound s) (hid : bound.isNamespace id = false) :
    s.mergedSymbol id = id :=
  State.mergedSymbol_eq_self fun _ hfind => by simp [(h.merged hfind).2.1] at hid

theorem Unified.canonical_of_joined (h : Unified bound s) (hid : s.Joined id) :
    bound.Canonical (s.mergedSymbol id) ∧ s.bindings.isNamespace (s.mergedSymbol id) = true := by
  rcases hid with rfl | hid
  · rw [h.mergedSymbol_global]
    exact ⟨Or.inl rfl, isNamespace_iff.mpr ⟨_, h.global, rfl⟩⟩
  · obtain ⟨canonical, hcanon⟩ := isSome_iff_exists.mp hid
    rw [State.mergedSymbol_of_find hcanon]
    obtain ⟨-, -, hle, hns⟩ := h.merged hcanon
    exact ⟨Or.inr hle, hns⟩

/-- A namespace that has been entered before has the same canonical namespace again. -/
theorem Unified.mergedSymbol_admitted (h : Unified bound s) (hsit : Situated tree bound)
    (hloc : ∀ {id canonical}, s.mergedSymbols.find? id = some canonical →
      ∃ i outer, bound.identity? id = some i ∧ i.parent = some outer ∧ s.Joined outer ∧
        s.bindings.binding? (.namespaceScope (s.mergedSymbol outer)) i.name = some canonical)
    (hentry : bound.binding? scope name = some entered) (huni : Unified bound s')
    (hadm : Admitted s s' (s.mergedSymbol scope.owner) name entered canonical)
    (hid : s.Joined id) : s'.Joined id ∧ s'.mergedSymbol id = s.mergedSymbol id := by
  rcases hid with rfl | hid
  · exact ⟨Or.inl rfl, by rw [huni.mergedSymbol_global, h.mergedSymbol_global]⟩
  obtain ⟨found, hfind⟩ := isSome_iff_exists.mp hid
  rw [State.mergedSymbol_of_find hfind]
  by_cases heq : id = entered
  · subst heq
    have hnow : s'.mergedSymbols.find? id = some canonical := by
      rw [hadm.mergedSymbols, OrderedMap.find?_insert, if_pos rfl]
    refine ⟨Or.inr (isSome_iff_exists.mpr ⟨_, hnow⟩), ?_⟩
    rw [State.mergedSymbol_of_find hnow]
    obtain ⟨i, outer, hi, hpar, -, hloc⟩ := hloc hfind
    obtain ⟨j, hj, hname, hotherPar, -⟩ := hsit.entry hentry
    obtain rfl := mem_unique hi hj
    obtain rfl := mem_unique hpar hotherPar
    rw [hname] at hloc
    rcases hadm.entries with ⟨hsame, -⟩ | ⟨-, hnone, -⟩
    · exact mem_unique hadm.found ((hsame _ _).trans hloc)
    · exact absurd (h.merged hfind).2.2.2 (filter_eq_none_iff.mp hnone found hloc)
  · have hnow : s'.mergedSymbols.find? id = some found := by
      rw [hadm.mergedSymbols, OrderedMap.find?_insert, if_neg heq, hfind]
    exact ⟨Or.inr (isSome_iff_exists.mpr ⟨_, hnow⟩), State.mergedSymbol_of_find hnow⟩

/-- An entry of a table is a namespace, whose exports are merged once it has been entered, or it is
entered as it is. -/
theorem Unified.mergeEntry_cases (h : Unified bound s) (hsit : Situated tree bound)
    (mergeNested : State → SymbolTable → SymbolId → State) (target : SymbolId)
    (hentry : bound.binding? scope name = some id) :
    (∃ symbol exports, s.bindings.symbol? id = some symbol ∧ symbol.isNamespace = true ∧
        bound.isNamespace id = true ∧ bound.exports? id = some exports ∧
        State.mergeEntry mergeNested target s (name, id) =
          mergeNested (s.enterNamespace target (name, id) symbol).2 exports
            (s.enterNamespace target (name, id) symbol).1) ∨
      bound.isNamespace id = false ∧ State.mergeEntry mergeNested target s (name, id) =
        s.modifyExports target (·.set name id) := by
  obtain ⟨hold, i, hi, -⟩ := old_of_entry hsit hentry
  obtain ⟨symbol, hsym, -⟩ := map_eq_some_iff.mp hi
  rw [← h.old hold] at hsym
  have hkind : bound.isNamespace id = symbol.isNamespace := by
    rw [← h.isNamespace_old hold, isNamespace, hsym]
    rfl
  cases hns : symbol.isNamespace with
  | true =>
    obtain ⟨exports, hexp⟩ := isSome_iff_exists.mp (hsit.exports (hkind.trans hns))
    have hsymbolExports : symbol.exports = some exports := by
      rw [exports?, ← h.old hold, hsym] at hexp
      exact hexp
    refine .inl ⟨symbol, exports, hsym, hns, hkind.trans hns, hexp, ?_⟩
    simp [State.mergeEntry, hsym, hns, hsymbolExports]
  | false => exact .inr ⟨hkind.trans hns, by simp [State.mergeEntry, hsym, hns]⟩

end Checking

end ApiSchema
