import ApiSchema.Proofs.Binding.Canonical

/-!
# Claims to names

A symbol claims a name in a table if the table binds the name to it, or has it on record among those
that contest the name. Here it is shown what tables say of claims: whoever has a name that others
claim is on record with them, and nobody is on record alone. When a program has been bound, every
symbol that is declared in a namespace claims its name in one of the tables of the namespace.
-/

namespace ApiSchema

open OrderedMap SymbolTable

namespace SymbolTable

variable {table source : SymbolTable} {name key : String} {id symbol : SymbolId}

/-- The symbols that are on record as contesting a name. -/
def contestants (table : SymbolTable) (name : String) : List SymbolId :=
  (table.duplicates.find? name).getD []

/-- A symbol claims a name. -/
def Claims (table : SymbolTable) (id : SymbolId) (name : String) : Prop :=
  table.find? name = some id ∨ id ∈ table.contestants name

theorem mem_contestants_recordDuplicates {symbols : List SymbolId} :
    id ∈ (table.recordDuplicates name symbols).contestants key ↔
      id ∈ table.contestants key ∨ key = name ∧ id ∈ symbols := by
  rw [contestants, recordDuplicates, find?_insert]
  split
  next heq =>
    subst heq
    simp [addClaimants, mem_foldl_new, contestants]
  next hne =>
    simp [hne, contestants]

theorem mem_contestants_set : id ∈ (table.set name symbol).contestants key ↔
    id ∈ table.contestants key ∨ key = name ∧ ∃ existing, table.find? name = some existing ∧
      existing ≠ symbol ∧ (id = existing ∨ id = symbol) := by
  rw [set]
  split
  next hnone =>
    simp [hnone, contestants]
  next existing hexist =>
    split
    next heq =>
      simp [hexist, heq]
    next hne =>
      simp [hexist, hne, mem_contestants_recordDuplicates]

theorem mem_contestants_overwrite : id ∈ (table.overwrite name symbol).contestants key ↔
    id ∈ table.contestants key ∨ key = name ∧ ∃ existing, table.find? name = some existing ∧
      existing ≠ symbol ∧ (id = existing ∨ id = symbol) := by
  have hbound : ∀ {t : OrderedMap String SymbolId},
      ({ table with bound := t } : SymbolTable).contestants key = table.contestants key := rfl
  rw [overwrite]
  split
  next hnone =>
    simp [hnone, hbound]
  next existing hexist =>
    split
    next heq =>
      simp [hexist, heq, hbound]
    next hne =>
      simp [hexist, hne, mem_contestants_recordDuplicates, hbound]

/-- The table with what another one has on record. -/
def adopt (table source : SymbolTable) : SymbolTable :=
  source.duplicates.entries.foldl (fun table entry => table.recordDuplicates entry.1 entry.2) table

theorem find?_adopt (table source : SymbolTable) (key : String) :
    (table.adopt source).find? key = table.find? key :=
  find?_foldl_recordDuplicates _

/-- A table adopts the claims of another one. -/
theorem mem_contestants_adopt : id ∈ (table.adopt source).contestants key ↔
    id ∈ table.contestants key ∨ id ∈ source.contestants key := by
  have hall : ∀ (entries : List (String × List SymbolId)) (table : SymbolTable),
      id ∈ (entries.foldl (fun table entry => table.recordDuplicates entry.1 entry.2)
        table).contestants key ↔
      id ∈ table.contestants key ∨ ∃ symbols, (key, symbols) ∈ entries ∧ id ∈ symbols := by
    intro entries
    induction entries with
    | nil => simp
    | cons entry rest ih =>
      intro table
      rw [List.foldl_cons, ih, mem_contestants_recordDuplicates, or_assoc]
      refine or_congr_right ?_
      constructor
      · rintro (⟨rfl, hid⟩ | ⟨symbols, hmem, hid⟩)
        · exact ⟨_, List.mem_cons_self, hid⟩
        · exact ⟨symbols, List.mem_cons_of_mem _ hmem, hid⟩
      · rintro ⟨symbols, hmem, hid⟩
        rcases List.mem_cons.mp hmem with rfl | hmem
        · exact .inl ⟨rfl, hid⟩
        · exact .inr ⟨symbols, hmem, hid⟩
  rw [adopt, hall, contestants, contestants]
  refine or_congr_right ?_
  constructor
  · rintro ⟨symbols, hmem, hid⟩
    rw [find?_eq_some_iff.mpr hmem]
    exact hid
  · intro hid
    cases hfind : source.duplicates.find? key with
    | none => simp [hfind] at hid
    | some symbols =>
      rw [hfind] at hid
      exact ⟨symbols, find?_eq_some_iff.mp hfind, hid⟩

/-! ### Fair tables -/

/-- A contested name is bound, what has it is on record, unless it is exempt, and whoever is on
record has a rival. -/
structure Fair (exempt : SymbolId → Prop) (table : SymbolTable) : Prop where
  bound {id : SymbolId} {name : String} : id ∈ table.contestants name →
    ∃ holder, table.find? name = some holder
  recorded {id holder : SymbolId} {name : String} : table.find? name = some holder →
    ¬ exempt holder → id ∈ table.contestants name → holder ∈ table.contestants name
  rival {id : SymbolId} {name : String} : id ∈ table.contestants name →
    ∃ other, other ≠ id ∧ table.Claims other name

variable {exempt exempt' : SymbolId → Prop}

theorem not_claims_empty : ¬ empty.Claims id name := by
  rintro (h | h) <;> simp [find?, contestants, empty] at h

theorem Fair.empty (exempt : SymbolId → Prop) : SymbolTable.empty.Fair exempt := by
  constructor <;> simp [contestants, SymbolTable.empty]

theorem Fair.mono (h : table.Fair exempt) (himp : ∀ id, exempt id → exempt' id) :
    table.Fair exempt' :=
  ⟨h.bound, fun hfind hnot => h.recorded hfind fun hexempt => hnot (himp _ hexempt), h.rival⟩

/-- Rivals are on record, but for those that are exempt. -/
theorem Fair.mem_contestants (h : table.Fair exempt) (hid : table.Claims id name)
    (hsym : table.Claims symbol name) (hne : symbol ≠ id) (hnot : ¬ exempt id) :
    id ∈ table.contestants name := by
  rcases hid with hfind | hid
  · rcases hsym with hother | hother
    · exact absurd (Option.mem_unique hother hfind) hne
    · exact h.recorded hfind hnot hother
  · exact hid

theorem Claims.set (h : table.Claims id key) (name : String) (symbol : SymbolId) :
    (table.set name symbol).Claims id key := by
  rcases h with h | h
  · left
    rw [find?_set_eq]
    split
    next heq =>
      rw [← heq, h]
      rfl
    · exact h
  · exact .inr (mem_contestants_set.mpr (.inl h))

theorem Claims.overwrite (h : table.Claims id key) (name : String) (symbol : SymbolId) :
    (table.overwrite name symbol).Claims id key := by
  rcases h with h | h
  · by_cases heq : key = name
    · subst heq
      by_cases hsame : id = symbol
      · exact .inl (by rw [find?_overwrite_eq, if_pos rfl, hsame])
      · exact .inr (mem_contestants_overwrite.mpr (.inr ⟨rfl, id, h, hsame, Or.inl rfl⟩))
    · exact .inl (by rw [find?_overwrite_eq, if_neg heq, h])
  · exact .inr (mem_contestants_overwrite.mpr (.inl h))

/-- Whoever sets a name claims it. -/
theorem claims_set (table : SymbolTable) (name : String) (symbol : SymbolId) :
    (table.set name symbol).Claims symbol name := by
  cases hfind : table.find? name with
  | none => exact .inl (by rw [find?_set_eq, if_pos rfl, hfind]; rfl)
  | some existing =>
    by_cases heq : existing = symbol
    · exact .inl (by rw [find?_set_eq, if_pos rfl, hfind, heq]; rfl)
    · exact .inr (mem_contestants_set.mpr (.inr ⟨rfl, existing, hfind, heq, Or.inr rfl⟩))

theorem claims_of_set (h : (table.set name symbol).Claims id key) :
    table.Claims id key ∨ id = symbol ∧ key = name := by
  rcases h with h | h
  · rw [find?_set_eq] at h
    split at h
    next heq =>
      rcases Option.or_eq_some_iff.mp h with h | ⟨-, h⟩
      · exact .inl (.inl (heq ▸ h))
      · exact .inr ⟨(Option.some.inj h).symm, heq⟩
    · exact .inl (.inl h)
  · rcases mem_contestants_set.mp h with h | ⟨rfl, existing, hexist, -, rfl | rfl⟩
    · exact .inl (.inr h)
    · exact .inl (.inl hexist)
    · exact .inr ⟨rfl, rfl⟩

theorem claims_of_overwrite (h : (table.overwrite name symbol).Claims id key) :
    table.Claims id key ∨ id = symbol ∧ key = name := by
  rcases h with h | h
  · rw [find?_overwrite_eq] at h
    split at h
    next heq =>
      exact .inr ⟨(Option.some.inj h).symm, heq⟩
    · exact .inl (.inl h)
  · rcases mem_contestants_overwrite.mp h with h | ⟨rfl, existing, hexist, -, rfl | rfl⟩
    · exact .inl (.inr h)
    · exact .inl (.inl hexist)
    · exact .inr ⟨rfl, rfl⟩

/-- The one that has a name and the one that sets it are rivals, and both are on record. -/
theorem Fair.set (h : table.Fair exempt) (name : String) (symbol : SymbolId) :
    (table.set name symbol).Fair exempt := by
  constructor
  · intro id key hid
    rw [find?_set_eq]
    rcases mem_contestants_set.mp hid with hid | ⟨rfl, existing, hexist, -⟩
    · obtain ⟨holder, hholder⟩ := h.bound hid
      split
      next heq =>
        exact ⟨holder, by rw [← heq, hholder]; rfl⟩
      · exact ⟨holder, hholder⟩
    · exact ⟨existing, by rw [if_pos rfl, hexist]; rfl⟩
  · intro id holder key hholder hnot hid
    rw [mem_contestants_set]
    rw [find?_set_eq] at hholder
    split at hholder
    next heq =>
      subst heq
      rcases mem_contestants_set.mp hid with hid | ⟨-, existing, hexist, hne, -⟩
      · obtain ⟨old, hold⟩ := h.bound hid
        rw [hold, Option.some_or] at hholder
        exact .inl (h.recorded (hold.trans hholder) hnot hid)
      · rw [hexist, Option.some_or, Option.some.injEq] at hholder
        exact .inr ⟨rfl, existing, hexist, hne, Or.inl hholder.symm⟩
    next hne =>
      rcases mem_contestants_set.mp hid with hid | ⟨heq, -⟩
      · exact .inl (h.recorded hholder hnot hid)
      · exact absurd heq hne
  · intro id key hid
    rcases mem_contestants_set.mp hid with hid | ⟨rfl, existing, hexist, hne, rfl | rfl⟩
    · obtain ⟨other, hother, hclaims⟩ := h.rival hid
      exact ⟨other, hother, hclaims.set name symbol⟩
    · exact ⟨symbol, hne.symm, claims_set table _ _⟩
    · have hclaims : table.Claims existing key := Or.inl hexist
      exact ⟨existing, hne, hclaims.set _ _⟩

/-- What takes a name over has to be exempt: it need not be on record with older rivals. -/
theorem Fair.overwrite (h : table.Fair exempt) (name : String) (hexempt : exempt symbol) :
    (table.overwrite name symbol).Fair exempt := by
  constructor
  · intro id key hid
    rw [find?_overwrite_eq]
    rcases mem_contestants_overwrite.mp hid with hid | ⟨rfl, -⟩
    · split
      · exact ⟨_, rfl⟩
      · exact h.bound hid
    · exact ⟨symbol, if_pos rfl⟩
  · intro id holder key hholder hnot hid
    rw [find?_overwrite_eq] at hholder
    split at hholder
    · exact absurd (Option.some.inj hholder ▸ hexempt) hnot
    next hne =>
      rcases mem_contestants_overwrite.mp hid with hid | ⟨heq, -⟩
      · exact mem_contestants_overwrite.mpr (.inl (h.recorded hholder hnot hid))
      · exact absurd heq hne
  · intro id key hid
    rcases mem_contestants_overwrite.mp hid with hid | ⟨rfl, existing, hexist, hne, rfl | rfl⟩
    · obtain ⟨other, hother, hclaims⟩ := h.rival hid
      exact ⟨other, hother, hclaims.overwrite name symbol⟩
    · exact ⟨symbol, hne.symm, Or.inl (by rw [find?_overwrite_eq, if_pos rfl])⟩
    · have hclaims : table.Claims existing key := Or.inl hexist
      exact ⟨existing, hne, hclaims.overwrite _ _⟩

theorem Claims.adopt (h : table.Claims id key) (source : SymbolTable) :
    (table.adopt source).Claims id key :=
  h.imp (fun hbound => (find?_adopt _ _ _).trans hbound)
    fun hid => mem_contestants_adopt.mpr (.inl hid)

/-- What another fair table has on record is added. Whatever that table binds must claim its name
here already, or be exempt, as what has the name here then must be. -/
theorem Fair.adopt (h : table.Fair exempt) (hsource : source.Fair exempt)
    (hent : ∀ {key id}, source.find? key = some id → table.Claims id key ∨
      ∃ holder, table.find? key = some holder ∧ exempt holder ∧
        ∀ x ∈ source.contestants key, holder ≠ x) : (table.adopt source).Fair exempt := by
  constructor
  · intro id key hid
    rw [find?_adopt]
    rcases mem_contestants_adopt.mp hid with hid | hid
    · exact h.bound hid
    · obtain ⟨first, hfirst⟩ := hsource.bound hid
      rcases hent hfirst with (hbound | hrec) | ⟨holder, hholder, -⟩
      · exact ⟨first, hbound⟩
      · exact h.bound hrec
      · exact ⟨holder, hholder⟩
  · intro id holder key hholder hnot hid
    rw [find?_adopt] at hholder
    rcases mem_contestants_adopt.mp hid with hid | hid
    · exact mem_contestants_adopt.mpr (.inl (h.recorded hholder hnot hid))
    · obtain ⟨first, hfirst⟩ := hsource.bound hid
      rcases hent hfirst with (hbound | hrec) | ⟨other, hother, hexempt, -⟩
      · obtain rfl := Option.mem_unique hholder hbound
        exact mem_contestants_adopt.mpr (.inr (hsource.recorded hfirst hnot hid))
      · exact mem_contestants_adopt.mpr (.inl (h.recorded hholder hnot hrec))
      · obtain rfl := Option.mem_unique hholder hother
        exact absurd hexempt hnot
  · intro id key hid
    rcases mem_contestants_adopt.mp hid with hid | hid
    · obtain ⟨other, hother, hclaims⟩ := h.rival hid
      exact ⟨other, hother, hclaims.adopt source⟩
    · obtain ⟨other, hother, hbound | hrec⟩ := hsource.rival hid
      · rcases hent hbound with hclaims | ⟨holder, hholder, -, hne⟩
        · exact ⟨other, hother, hclaims.adopt source⟩
        · exact ⟨holder, hne id hid, Or.inl ((find?_adopt _ _ _).trans hholder)⟩
      · exact ⟨other, hother, Or.inr (mem_contestants_adopt.mpr (.inr hrec))⟩

end SymbolTable

namespace Bindings

variable {tree : Tree} {b b' : Bindings} {scope other : BindingScope} {id : SymbolId}
  {name : String} {table : SymbolTable}

/-- A symbol claims a name in the table of a scope. -/
def Claims (b : Bindings) (scope : BindingScope) (id : SymbolId) (name : String) : Prop :=
  ∃ table, b.scopeTable? scope = some table ∧ table.Claims id name

theorem claims_of_binding? (h : b.binding? scope name = some id) : b.Claims scope id name := by
  obtain ⟨table, htable, hfind⟩ := Option.bind_eq_some_iff.mp h
  exact ⟨table, htable, Or.inl hfind⟩

/-- A new symbol has no names yet. -/
theorem scopeTable?_push (name : String) (kind : SymbolKind) (declarations : List NodeId)
    (parent : Option SymbolId) {other : BindingScope} {table : SymbolTable}
    (h : ({ b with symbols := b.symbols.push (.make name kind declarations parent) } :
      Bindings).scopeTable? other = some table) :
    b.scopeTable? other = some table ∨ table = .empty := by
  cases other with
  | file file => exact .inl h
  | namespaceScope owner => exact (exports?_push h).symm

theorem scopeTable?_push_of_some (symbol : Symbol) (h : b.scopeTable? other = some table) :
    ({ b with symbols := b.symbols.push symbol } : Bindings).scopeTable? other = some table := by
  cases other with
  | file file => exact h
  | namespaceScope owner =>
    rw [scopeTable?] at h ⊢
    rw [exports?_push_of_ne _ (ne_nextId_of_exports (by simp [h])), h]

/-! ### What is declared claims its name -/

/-- Everything but template parameters is a claimant in a table of its parent, and nothing else is.
Only template parameters are local names. -/
structure Tallied (tree : Tree) (b : Bindings) : Prop where
  fair {scope : BindingScope} {table : SymbolTable} : b.scopeTable? scope = some table →
    table.Fair fun _ => False
  sound {scope : BindingScope} {id : SymbolId} {name : String} : b.Claims scope id name →
    ∃ i, b.identity? id = some i ∧ i.name = name ∧ i.kind ≠ .templateParameter ∧
      i.parent = some scope.owner
  counted {id outer : SymbolId} {i : Symbol.Identity} : b.identity? id = some i →
    i.kind ≠ .templateParameter → i.parent = some outer →
    ∃ scope, scope.owner = outer ∧ (∀ file, scope = .file file → file ∈ tree.files) ∧
      b.Claims scope id i.name
  locals {n : NodeId} {table : SymbolTable} {id : SymbolId} {name : String} :
    b.locals.find? n = some table → table.Claims id name →
    ∃ i, b.identity? id = some i ∧ i.kind = .templateParameter

/-- At first nothing is claimed. -/
theorem global_tallied : Tallied tree global := by
  have hempty : ∀ {scope table}, global.scopeTable? scope = some table → table = .empty := by
    intro scope table htable
    refine (scopeTable?_push (b := empty) "" .namespaceKind [Tree.globalNamespace] none
      htable).resolve_left fun hnone => ?_
    cases scope <;> simp [scopeTable?, empty, exports?, symbol?, Table.get?, Table.empty] at hnone
  refine ⟨fun htable => hempty htable ▸ .empty _, fun hclaims => ?_,
    fun {id outer i} hi _ hpar => ?_, fun htable => ?_⟩
  · obtain ⟨table, htable, hclaims⟩ := hclaims
    exact absurd (hempty htable ▸ hclaims) not_claims_empty
  · simp [(eq_of_global_identity hi).2] at hpar
  · simp [global, recordNode, empty] at htable

namespace Tallied

variable (h : Tallied tree b)

include h

/-- Nothing is claimed. -/
theorem keep (hold : ∀ {id i}, b.identity? id = some i → b'.identity? id = some i)
    (hnew : ∀ {id i}, b'.identity? id = some i →
      b.identity? id = some i ∨ i.kind = .templateParameter)
    (hkept : ∀ {scope table}, b.scopeTable? scope = some table → b'.scopeTable? scope = some table)
    (htable : ∀ {scope table}, b'.scopeTable? scope = some table →
      b.scopeTable? scope = some table ∨ table = .empty)
    (hlocals : ∀ {n table id name}, b'.locals.find? n = some table → table.Claims id name →
      (∃ table', b.locals.find? n = some table' ∧ table'.Claims id name) ∨
        ∃ i, b'.identity? id = some i ∧ i.kind = .templateParameter) : Tallied tree b' := by
  refine ⟨fun {scope table} hfind => ?_, fun {scope id name} ⟨table, hfind, hclaims⟩ => ?_,
    fun {id outer i} hi hkind hpar => ?_, fun {n table id name} hfind hclaims => ?_⟩
  · rcases htable hfind with hfind | rfl
    · exact h.fair hfind
    · exact .empty _
  · rcases htable hfind with hfind | rfl
    · obtain ⟨i, hi, hrest⟩ := h.sound ⟨table, hfind, hclaims⟩
      exact ⟨i, hold hi, hrest⟩
    · exact absurd hclaims not_claims_empty
  · obtain ⟨scope, howner, hlegit, table, hfind, hclaims⟩ :=
      h.counted ((hnew hi).resolve_right hkind) hkind hpar
    exact ⟨scope, howner, hlegit, table, hkept hfind, hclaims⟩
  · rcases hlocals hfind hclaims with ⟨table', hfind', hclaims'⟩ | hparam
    · obtain ⟨i, hi, hkind⟩ := h.locals hfind' hclaims'
      exact ⟨i, hold hi, hkind⟩
    · exact hparam

/-- A new symbol claims its name in the table of its scope. -/
theorem enlist (scope : BindingScope) (name : String) {kind : SymbolKind}
    (declarations : List NodeId)
    (hopen : ∀ owner, scope = .namespaceScope owner → (b.exports? owner).isSome = true)
    (hkind : kind ≠ .templateParameter) (hlegit : ∀ file, scope = .file file → file ∈ tree.files)
    (hident : ∀ id, b'.identity? id = if id = b.symbols.nextId then
      some ⟨name, kind, some scope.owner⟩ else b.identity? id)
    (htables : ∀ other, b'.scopeTable? other = (Bindings.claim { b with
        symbols := b.symbols.push (.make name kind declarations (some scope.owner)) }
      scope name b.symbols.nextId).scopeTable? other)
    (hlocals : b'.locals = b.locals) : Tallied tree b' := by
  have hadded : ∀ owner, scope = .namespaceScope owner → (exports? { b with
      symbols := b.symbols.push (.make name kind declarations (some scope.owner)) } owner).isSome =
        true := fun owner howner => by
    rw [exports?_push_of_ne _ (ne_nextId_of_exports (hopen owner howner))]
    exact hopen owner howner
  have hclaimed := fun other => (htables other).trans
    (scopeTable?_claim hadded name b.symbols.nextId other)
  have hset : b'.scopeTable? scope =
      some (((b.scopeTable? scope).getD .empty).set name b.symbols.nextId) := by
    rw [hclaimed, if_pos rfl]
    cases scope with
    | file file => rfl
    | namespaceScope owner =>
      rw [scopeTable?, scopeTable?, exports?_push_of_ne _ (ne_nextId_of_exports (hopen owner rfl))]
  have hold : ∀ {id i}, b.identity? id = some i → b'.identity? id = some i := fun hi => by
    rw [hident, if_neg (ne_nextId hi), hi]
  have hother : ∀ {other table}, other ≠ scope → b'.scopeTable? other = some table →
      b.scopeTable? other = some table ∨ table = .empty := fun hne hfind => by
    rw [hclaimed, if_neg hne] at hfind
    exact scopeTable?_push _ _ _ _ hfind
  have hbefore : ∀ {P : SymbolTable → Prop}, (∀ {table}, b.scopeTable? scope = some table → P table) →
      P .empty → P ((b.scopeTable? scope).getD .empty) := by
    intro P hsome hempty
    cases hscope : b.scopeTable? scope with
    | none => exact hempty
    | some table => exact hsome hscope
  refine ⟨fun {other table} hfind => ?_, fun {other id key} hclaims => ?_,
    fun {id outer i} hi hkind hpar => ?_, fun {n table id key} hfind hclaim => ?_⟩
  · by_cases heq : other = scope
    · rw [heq, hset] at hfind
      exact Option.some.inj hfind ▸ (hbefore h.fair (.empty _)).set _ _
    · rcases hother heq hfind with hfind | rfl
      · exact h.fair hfind
      · exact .empty _
  · obtain ⟨table, hfind, hclaim⟩ := hclaims
    by_cases heq : other = scope
    · subst heq
      rw [hset] at hfind
      rcases claims_of_set (Option.some.inj hfind ▸ hclaim) with hclaim | ⟨rfl, rfl⟩
      · have hclaimed : b.Claims other id key := hbefore (P := fun table => table.Claims id key →
            b.Claims other id key) (fun hfind hclaim => ⟨_, hfind, hclaim⟩)
          (fun hclaim => absurd hclaim not_claims_empty) hclaim
        obtain ⟨i, hi, hrest⟩ := h.sound hclaimed
        exact ⟨i, hold hi, hrest⟩
      · exact ⟨_, (hident _).trans (if_pos rfl), rfl, hkind, rfl⟩
    · rcases hother heq hfind with hfind | rfl
      · obtain ⟨i, hi, hrest⟩ := h.sound ⟨table, hfind, hclaim⟩
        exact ⟨i, hold hi, hrest⟩
      · exact absurd hclaim not_claims_empty
  · rw [hident] at hi
    split at hi
    next heq =>
      cases hi
      exact ⟨scope, Option.some.inj hpar, hlegit, _, hset, heq ▸ claims_set _ _ _⟩
    · obtain ⟨other, howner, hlisted, table, hfind, hclaim⟩ := h.counted hi hkind hpar
      refine ⟨other, howner, hlisted, ?_⟩
      by_cases heq : other = scope
      · subst heq
        refine ⟨_, hset, SymbolTable.Claims.set ?_ _ _⟩
        rw [hfind]
        exact hclaim
      · refine ⟨table, ?_, hclaim⟩
        rw [hclaimed, if_neg heq]
        exact scopeTable?_push_of_some _ hfind
  · rw [hlocals] at hfind
    obtain ⟨i, hi, hparam⟩ := h.locals hfind hclaim
    exact ⟨i, hold hi, hparam⟩

/-- A template parameter is a local name of its declaration. -/
theorem withParameter (declaration p : NodeId) (name : String) :
    Tallied tree (b.withParameter declaration p name) := by
  have hident := identity?_withParameter (b := b) declaration p name
  have htables : ∀ other, (b.withParameter declaration p name).scopeTable? other =
      scopeTable? { b with
        symbols := b.symbols.push
          (.make name .templateParameter [p] (b.namespaceOf? declaration)) } other := by
    intro other
    cases other <;> rfl
  refine h.keep (fun hi => ?_) (fun {id i} hi => ?_) (fun hfind => ?_) (fun hfind => ?_)
    (fun {n table id key} hfind hclaims => ?_)
  · rw [hident, if_neg (ne_nextId hi), hi]
  · rw [hident] at hi
    split at hi
    · exact .inr (Option.some.inj hi ▸ rfl)
    · exact .inl hi
  · rw [htables]
    exact scopeTable?_push_of_some _ hfind
  · rw [htables] at hfind
    exact scopeTable?_push _ _ _ _ hfind
  · have hinsert : (b.withParameter declaration p name).locals.find? n =
        if n = declaration then
          some (((b.locals.find? declaration).getD .empty).set name b.symbols.nextId)
        else b.locals.find? n := find?_insert _ _ _ _
    rw [hinsert] at hfind
    split at hfind
    next heq =>
      subst heq
      cases hfind
      rcases claims_of_set hclaims with hclaims | ⟨rfl, -⟩
      · cases hlocals : b.locals.find? n with
        | none => exact absurd (by simpa [hlocals] using hclaims) not_claims_empty
        | some table => exact .inl ⟨table, rfl, by simpa [hlocals] using hclaims⟩
      · exact .inr ⟨_, (hident _).trans (if_pos rfl), rfl⟩
    · exact .inl ⟨table, hfind, hclaims⟩

/-- A step claims names for what it declares. -/
theorem step (hc : tree.Complete) (hsit : Situated tree b) (hstep : Step tree b b') :
    Tallied tree b' := by
  -- Local names that are as they were.
  have hsame : ∀ {n : NodeId} {table : SymbolTable} {id : SymbolId} {name : String},
      b.locals.find? n = some table → table.Claims id name →
      ∃ table', b.locals.find? n = some table' ∧ table'.Claims id name :=
    fun hfind hclaims => ⟨_, hfind, hclaims⟩
  cases hstep with
  | @declared scope name kind node nodeKind hscope hnKind hsym hkind hname hfresh hnew =>
    refine h.enlist scope name [node] (hsit.exports_owner hc hscope) hkind ?_
      (identity?_withDeclaration scope name kind node) (fun other => ?_) ?_
    · rintro file rfl
      cases hscope with
      | file hfile => exact hfile
    · cases scope <;> cases other <;> rfl
    · cases scope <;> rfl
  | reopened hscope hkind hfresh hexist =>
    refine h.keep (fun hi => (identity?_withReopening _ _ _ _).trans hi)
      (fun hi => .inl ((identity?_withReopening _ _ _ _).symm.trans hi)) ?_ ?_
      (fun hfind hclaims => .inl (hsame hfind hclaims))
    · intro scope table hfind
      cases scope with
      | file file => exact hfind
      | namespaceScope owner => exact (exports?_withReopening _ _ _ _).trans hfind
    · intro scope table hfind
      cases scope with
      | file file => exact .inl hfind
      | namespaceScope owner => exact .inl ((exports?_withReopening _ _ _ _).symm.trans hfind)
  | parameter => exact h.withParameter _ _ _
  | located | opened | noted =>
    refine h.keep id Or.inl ?_ ?_ fun hfind hclaims => .inl (hsame hfind hclaims)
    · rintro (file | owner) table hfind <;> exact hfind
    · rintro (file | owner) table hfind <;> exact .inl hfind
  | scope =>
    refine h.keep id Or.inl ?_ ?_ fun hfind hclaims => ?_
    · rintro (file | owner) table hfind <;> exact hfind
    · rintro (file | owner) table hfind <;> exact .inl hfind
    · rcases find?_insertIfNew_cases hfind with ⟨-, rfl⟩ | hfind
      · exact absurd hclaims not_claims_empty
      · exact .inl (hsame hfind hclaims)
  | file file =>
    refine h.keep id Or.inl ?_ ?_ fun hfind hclaims => .inl (hsame hfind hclaims)
    · rintro (other | owner) table hfind
      · rw [scopeTable?, find?_insertIfNew]
        split
        next heq =>
          rw [← heq, (show b.fileExports.find? other = some table from hfind)]
          rfl
        · exact hfind
      · exact hfind
    · rintro (other | owner) table hfind
      · rcases find?_insertIfNew_cases hfind with ⟨-, rfl⟩ | hfind
        · exact .inr rfl
        · exact .inl hfind
      · exact .inl hfind
  | @decorator owner path howner =>
    refine h.enlist (.namespaceScope owner) _ [] (fun other hother => ?_) (by simp) (by simp)
      (identity?_withDecorator owner path) (fun other => by cases other <;> rfl) rfl
    cases hother
    exact hsit.exports (hsit.isNamespace_decoratorOwner hc howner)

end Tallied

/-- What is declared claims its name. -/
theorem declaring_tallied (hc : tree.Complete) (paths : List String) :
    Tallied tree (declaring tree paths) :=
  (preserves_of_step (P := fun b => Situated tree b ∧ Tallied tree b)
    (fun hstep h => ⟨h.1.step hc hstep, h.2.step hc h.1 hstep⟩) (declaring_builds hc paths).builds.steps
    ⟨global_situated, global_tallied⟩).2

end Bindings

end ApiSchema
