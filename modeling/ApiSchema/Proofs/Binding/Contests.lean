import ApiSchema.Proofs.Binding.Claims

/-!
# Contested names

Merging enters what the tables of the files bind into canonical namespaces, and what they have on
record as contested. Here it is shown that no claim is lost on the way: whoever claims a name in a
table that is merged claims it in the canonical namespace too, unless it is a namespace, for which
the canonical namespace of that name stands. So a name is contested in the end exactly if two
symbols of the same namespace have it. The order in which merging goes through the tables is written
down as a list of entries, along which other properties can be shown.
-/

namespace ApiSchema

open BindingScope Option

namespace Bindings

variable {tree : Tree} {b : Bindings} {scope : BindingScope}

/-- A name that the table of a scope binds. -/
structure Entry where
  scope : BindingScope
  name : String
  id : SymbolId

/-- The entries of a table, each followed by those of the namespace it binds, with namespaces nested
up to `depth` deep. -/
def entriesWithin (b : Bindings) : Nat → BindingScope → List Entry
  | 0, _ => []
  | depth + 1, scope => ((b.scopeTable? scope).getD .empty).bound.entries.flatMap fun entry =>
    ⟨scope, entry.1, entry.2⟩ ::
      if b.isNamespace entry.2 then b.entriesWithin depth (.namespaceScope entry.2) else []

/-- The entries of all tables inside a file. -/
def entries (b : Bindings) (file : NodeId) : List Entry :=
  b.entriesWithin (b.symbols.size + 1) (.file file)

theorem binding?_of_mem {entry : String × SymbolId}
    (h : entry ∈ ((b.scopeTable? scope).getD .empty).bound.entries) :
    b.binding? scope entry.1 = some entry.2 := by
  cases htable : b.scopeTable? scope with
  | none => simp [htable, SymbolTable.empty, OrderedMap.empty] at h
  | some table =>
    rw [htable] at h
    rw [binding?, htable]
    exact SymbolTable.find?_of_mem_entries h

/-- Namespaces are nested less deeply than there are symbols. -/
theorem Situated.entriesWithin_stable (h : Situated tree b) {d e : Nat}
    (hd : b.symbols.size ≤ d + scope.owner.index)
    (he : b.symbols.size ≤ e + scope.owner.index) :
    b.entriesWithin d scope = b.entriesWithin e scope := by
  have hnil : ∀ {d : Nat} {scope : BindingScope}, b.symbols.size ≤ scope.owner.index →
      b.entriesWithin d scope = [] := by
    intro d scope hsize
    cases d with
    | zero => rfl
    | succ d =>
      refine List.flatMap_eq_nil_iff.mpr fun entry hentry => ?_
      have := h.index_owner_lt (binding?_of_mem hentry)
      omega
  induction d generalizing scope e with
  | zero => rw [hnil (by omega), hnil (by omega)]
  | succ d ih =>
    cases e with
    | zero => rw [hnil (by omega), hnil (by omega)]
    | succ e =>
      rw [entriesWithin, entriesWithin]
      refine List.flatMap_congr fun entry hentry => ?_
      have hlt := h.index_owner_lt (binding?_of_mem hentry)
      have hnested : b.entriesWithin d (.namespaceScope entry.2) =
          b.entriesWithin e (.namespaceScope entry.2) :=
        ih (by simp only [owner]; omega) (by simp only [owner]; omega)
      rw [hnested]

end Bindings

namespace Checking

open Bindings OrderedMap SymbolTable

variable {tree : Tree} {bound : Bindings} {s s' s'' : State}
  {id owner canonical target outer : SymbolId} {name : String} {scope : BindingScope}
  {f : SymbolTable → SymbolTable} {symbol : Symbol} {source : SymbolTable} {i : Symbol.Identity}

/-- A symbol other than a template parameter has a name in a namespace, or in one that the namespace
stands for. -/
def State.Claims (s : State) (id : SymbolId) (name : String) (owner : SymbolId) : Prop :=
  ∃ symbol outer, s.bindings.symbol? id = some symbol ∧ symbol.kind ≠ .templateParameter ∧
    symbol.name = name ∧ symbol.parent = some outer ∧ s.mergedSymbol outer = owner

instance {id owner : SymbolId} {name : String} : Decidable (s.Claims id name owner) :=
  decidable_of_iff ((s.bindings.symbol? id).any fun symbol => symbol.kind ≠ .templateParameter ∧
      symbol.name = name ∧ symbol.parent.any fun outer => s.mergedSymbol outer = owner) (by
    simp [State.Claims, any_eq_true])

theorem State.claims_iff : s.Claims id name owner ↔
    ∃ i outer, s.bindings.identity? id = some i ∧ i.kind ≠ .templateParameter ∧ i.name = name ∧
      i.parent = some outer ∧ s.mergedSymbol outer = owner := by
  constructor
  · rintro ⟨symbol, outer, hsym, hrest⟩
    exact ⟨symbol.identity, outer, by rw [identity?, hsym]; rfl, hrest⟩
  · rintro ⟨i, outer, hi, hrest⟩
    obtain ⟨symbol, hsym, rfl⟩ := map_eq_some_iff.mp hi
    exact ⟨symbol, outer, hsym, hrest⟩

theorem State.mergedSymbol_of_not_joined (h : ¬ s.Joined id) :
    s.mergedSymbol id = id :=
  mergedSymbol_eq_self fun _ hfind => h (.inr (by rw [hfind]; rfl))

/-- What claims a name in a table of a file is no canonical namespace. -/
theorem old_of_claims (htallied : Tallied tree bound) (hsit : Situated tree bound)
    (h : bound.Claims scope id name) :
    ¬ bound.Canonical id := by
  obtain ⟨i, hi, -, -, hpar⟩ := htallied.sound h
  exact not_canonical_of_parent hsit hi hpar

/-- A symbol has its name in the namespace `canonical`, which is its parent or stands for it. -/
def State.Attributed (s : State) (canonical id : SymbolId) (name : String) : Prop :=
  ∃ i outer, s.bindings.identity? id = some i ∧ i.kind ≠ .templateParameter ∧ i.name = name ∧
    i.parent = some outer ∧ (outer = canonical ∨ s.Joined outer ∧ s.mergedSymbol outer = canonical)

/-- The canonical namespaces have been merged from tables of files. -/
structure Collected (bound : Bindings) (s : State) : Prop where
  unified : Unified bound s
  located {id canonical : SymbolId} : s.mergedSymbols.find? id = some canonical →
    ∃ i outer, bound.identity? id = some i ∧ i.parent = some outer ∧ s.Joined outer ∧
      s.bindings.binding? (.namespaceScope (s.mergedSymbol outer)) i.name = some canonical
  grown {id : SymbolId} {i : Symbol.Identity} : bound.symbols.size ≤ id.index →
    s.bindings.identity? id = some i → ∃ outer, i.parent = some outer ∧ bound.Canonical outer ∧
      s.bindings.binding? (.namespaceScope outer) i.name = some id
  fair {canonical : SymbolId} {table : SymbolTable} : bound.Canonical canonical →
    s.bindings.exports? canonical = some table → table.Fair bound.Canonical
  sound {canonical id : SymbolId} {name : String} : bound.Canonical canonical →
    s.bindings.Claims (.namespaceScope canonical) id name → s.Attributed canonical id name

/-- Namespaces that canonical ones stand for keep them, names that they have stay theirs, and claims
are kept. -/
structure Collects (bound : Bindings) (s s' : State) : Prop where
  joined {id : SymbolId} : s.Joined id → s'.Joined id ∧ s'.mergedSymbol id = s.mergedSymbol id
  held {owner id : SymbolId} {name : String} : bound.Canonical id →
    s.bindings.binding? (.namespaceScope owner) name = some id →
    s'.bindings.binding? (.namespaceScope owner) name = some id
  claims {owner id : SymbolId} {name : String} :
    s.bindings.Claims (.namespaceScope owner) id name →
    s'.bindings.Claims (.namespaceScope owner) id name

namespace Collects

theorem refl (bound : Bindings) (s : State) : Collects bound s s :=
  ⟨fun h => ⟨h, rfl⟩, fun _ h => h, fun h => h⟩

theorem trans (h : Collects bound s s') (h' : Collects bound s' s'') : Collects bound s s'' := by
  refine ⟨fun hid => ?_, fun hid hname => h'.held hid (h.held hid hname),
    fun hname => h'.claims (h.claims hname)⟩
  obtain ⟨hjoined, hsame⟩ := h.joined hid
  obtain ⟨hjoined', hsame'⟩ := h'.joined hjoined
  exact ⟨hjoined', hsame'.trans hsame⟩

end Collects

theorem State.Attributed.grow (h : s.Attributed canonical id name) (hcolls : Collects bound s s')
    (hident : ∀ {id i}, s.bindings.identity? id = some i → s'.bindings.identity? id = some i) :
    s'.Attributed canonical id name := by
  obtain ⟨i, outer, hi, hkind, hname, hpar, hstands⟩ := h
  refine ⟨i, outer, hident hi, hkind, hname, hpar, hstands.imp_right fun hjoined => ?_⟩
  obtain ⟨hjoined', hsame⟩ := hcolls.joined hjoined.1
  exact ⟨hjoined', hsame.trans hjoined.2⟩

namespace Collected

variable (h : Collected bound s)

include h

theorem exists_table (hid : s.Joined id) :
    ∃ table, s.bindings.exports? (s.mergedSymbol id) = some table := by
  obtain ⟨hcanon, hns⟩ := h.unified.canonical_of_joined hid
  exact isSome_iff_exists.mp (h.unified.exports hcanon hns)

theorem index_lt_of_joined (hsit : Situated tree bound) (hid : s.Joined id) :
    id.index < bound.symbols.size := by
  rcases hid with rfl | hid
  · exact index_lt_size hsit.global_identity
  · obtain ⟨canonical, hcanon⟩ := isSome_iff_exists.mp hid
    obtain ⟨i, -, hi, -⟩ := h.located hcanon
    exact index_lt_size hi

/-- What has been collected stays so when more is, if what is new is in order. -/
theorem grow (huni : Unified bound s') (hcolls : Collects bound s s')
    (hident : ∀ {id i}, s.bindings.identity? id = some i → s'.bindings.identity? id = some i)
    (hmarked : ∀ {id canonical}, s'.mergedSymbols.find? id = some canonical →
      s.mergedSymbols.find? id = some canonical ∨
      ∃ i outer, bound.identity? id = some i ∧ i.parent = some outer ∧ s.Joined outer ∧
        s'.bindings.binding? (.namespaceScope (s.mergedSymbol outer)) i.name = some canonical)
    (hgrown : ∀ {id i}, s'.bindings.identity? id = some i → s.bindings.identity? id = some i ∨
      ∃ outer, i.parent = some outer ∧ bound.Canonical outer ∧
        s'.bindings.binding? (.namespaceScope outer) i.name = some id)
    (hfair : ∀ {canonical table}, bound.Canonical canonical →
      s'.bindings.exports? canonical = some table → table.Fair bound.Canonical)
    (hsound : ∀ {canonical id name}, s'.bindings.Claims (.namespaceScope canonical) id name →
      s.bindings.Claims (.namespaceScope canonical) id name ∨ s'.Attributed canonical id name) :
    Collected bound s' := by
  refine ⟨huni, fun {id canonical} hfind => ?_, fun {id i} hle hi => ?_, hfair,
    fun hcanon hclaims => ?_⟩
  · rcases hmarked hfind with hold | ⟨i, outer, hi, hpar, houter, hname⟩
    · obtain ⟨i, outer, hi, hpar, houter, hname⟩ := h.located hold
      obtain ⟨hjoined, hsame⟩ := hcolls.joined houter
      refine ⟨i, outer, hi, hpar, hjoined, ?_⟩
      rw [hsame]
      exact hcolls.held (.inr (h.unified.merged hold).2.2.1) hname
    · obtain ⟨hjoined, hsame⟩ := hcolls.joined houter
      exact ⟨i, outer, hi, hpar, hjoined, hsame ▸ hname⟩
  · rcases hgrown hi with hold | hnew
    · obtain ⟨outer, hpar, houter, hname⟩ := h.grown hle hold
      exact ⟨outer, hpar, houter, hcolls.held (.inr hle) hname⟩
    · exact hnew
  · rcases hsound hclaims with hold | hnew
    · exact (h.sound hcanon hold).grow hcolls hident
    · exact hnew

end Collected

/-! ### The tables of canonical namespaces -/

/-- The exports of one namespace change in a way that keeps claims. -/
theorem collects_modifyExports
    (hheld : ∀ {table key holder}, s.bindings.exports? target = some table → bound.Canonical holder →
      table.find? key = some holder → (f table).find? key = some holder)
    (hclaims : ∀ {table id key}, s.bindings.exports? target = some table → table.Claims id key →
      (f table).Claims id key) :
    Collects bound s (s.modifyExports target f) := by
  have hexp := exports?_modifyExports_eq (b := s.bindings) target
  refine ⟨fun hid => ⟨hid, rfl⟩, fun {owner id name} hid hname => ?_,
    fun {owner id name} ⟨table, htable, hclaim⟩ => ?_⟩
  · obtain ⟨table, htable, hfind⟩ := bind_eq_some_iff.mp hname
    change ((s.bindings.modifyExports target f).exports? owner).bind _ = _
    rw [hexp]
    split
    next heq =>
      subst heq
      rw [show s.bindings.exports? owner = some table from htable]
      exact hheld htable hid hfind
    · exact hname
  · by_cases heq : owner = target
    · subst heq
      refine ⟨f table, (hexp _ _).trans ?_, hclaims htable hclaim⟩
      rw [if_pos rfl, show s.bindings.exports? owner = some table from htable]
      rfl
    · exact ⟨table, (hexp _ _).trans ((if_neg heq).trans htable), hclaim⟩

theorem claims_modifyExports
    (h : (s.bindings.modifyExports target f).Claims (.namespaceScope owner) id name) :
    s.bindings.Claims (.namespaceScope owner) id name ∨ owner = target ∧
      ∃ table, s.bindings.exports? target = some table ∧ (f table).Claims id name := by
  obtain ⟨table, htable, hclaim⟩ := h
  rw [scopeTable?, exports?_modifyExports_eq] at htable
  split at htable
  next heq =>
    obtain ⟨old, hold, rfl⟩ := map_eq_some_iff.mp htable
    exact .inr ⟨heq, old, heq ▸ hold, hclaim⟩
  · exact .inl ⟨table, htable, hclaim⟩

/-- The table of one canonical namespace changes, and stays fair. -/
theorem Collected.modifyExports (h : Collected bound s)
    (huni : Unified bound (s.modifyExports target f))
    (hcolls : Collects bound s (s.modifyExports target f))
    (hfair : ∀ {table}, s.bindings.exports? target = some table → table.Fair bound.Canonical →
      (f table).Fair bound.Canonical)
    (hsound : ∀ {table id name}, s.bindings.exports? target = some table →
      (f table).Claims id name → table.Claims id name ∨ s.Attributed target id name) :
    Collected bound (s.modifyExports target f) := by
  have hident := fun id => identity?_modifyExports (b := s.bindings) target id f
  refine h.grow huni hcolls (fun hi => (hident _).trans hi) Or.inl
    (fun hi => .inl ((hident _).symm.trans hi)) (fun {canonical table} hcanon htable => ?_)
    (fun {canonical id name} hclaims => ?_)
  · change (s.bindings.modifyExports target f).exports? canonical = some table at htable
    rw [exports?_modifyExports_eq] at htable
    split at htable
    next heq =>
      obtain ⟨old, hold, rfl⟩ := map_eq_some_iff.mp htable
      exact hfair (heq ▸ hold) (h.fair hcanon hold)
    · exact h.fair hcanon htable
  · rcases claims_modifyExports hclaims with hold | ⟨rfl, table, htable, hclaim⟩
    · exact .inl hold
    · rcases hsound htable hclaim with hold | hnew
      · exact .inl ⟨table, htable, hold⟩
      · exact .inr (hnew.grow hcolls fun hi => (hident _).trans hi)

/-- A namespace is entered under a name in `target` where one is there, or else it is a new
namespace with no names of its own. -/
def State.Admits (s : State) (target : SymbolId) (key : String) (canonical : SymbolId) (s' : State) :
    Prop :=
  ((∀ owner, s'.bindings.exports? owner = s.bindings.exports? owner) ∧
    ∀ id, s'.bindings.identity? id = s.bindings.identity? id) ∨
  canonical = s.bindings.symbols.nextId ∧
    (∀ owner, s'.bindings.exports? owner =
      if owner = target then (s.bindings.exports? owner).map (·.overwrite key canonical)
      else if owner = canonical then some .empty else s.bindings.exports? owner) ∧
    ∀ id, s'.bindings.identity? id =
      if id = canonical then some ⟨key, .namespaceKind, some target⟩ else s.bindings.identity? id

theorem State.enterNamespace_admits (s : State) (id : SymbolId)
    (hkind : symbol.kind = .namespaceKind) (htarget : target ≠ s.bindings.symbols.nextId) :
    s.Admits target symbol.name (s.enterNamespace target (symbol.name, id) symbol).1
      (s.enterNamespace target (symbol.name, id) symbol).2 := by
  simp only [State.enterNamespace, State.canonicalFor]
  split
  next existing hexist =>
    exact .inl ⟨exports?_joinDeclarations s existing symbol.declarations,
      identity?_joinDeclarations s existing symbol.declarations⟩
  · refine .inr ⟨rfl, fun owner => ?_, fun id => ?_⟩
    · refine (exports?_modifyExports_eq _ _ _).trans ?_
      split
      next heq =>
        rw [heq]
        exact congrArg (Option.map _) (exports?_push_of_ne _ htarget)
      · refine (exports?_push_eq _ owner).trans ?_
        rw [hkind]
        rfl
    · rw [← hkind]
      exact (identity?_modifyExports _ _ _).trans (identity?_push _ id)

namespace State.Admits

variable {key : String} {table : SymbolTable} (h : s.Admits target key canonical s')

include h

/-- What was there stays what it is. -/
theorem identity (hi : s.bindings.identity? id = some i) : s'.bindings.identity? id = some i := by
  rcases h with ⟨-, hident⟩ | ⟨rfl, -, hident⟩
  · exact (hident id).trans hi
  · exact (hident id).trans ((if_neg (ne_nextId hi)).trans hi)

/-- What is there was there before, or is the new namespace. -/
theorem identity_cases (hi : s'.bindings.identity? id = some i) :
    s.bindings.identity? id = some i ∨ id = canonical ∧ i = ⟨key, .namespaceKind, some target⟩ := by
  rcases h with ⟨-, hident⟩ | ⟨-, -, hident⟩
  · exact .inl ((hident id).symm.trans hi)
  · rw [hident] at hi
    split at hi
    next heq => exact .inr ⟨heq, (Option.some.inj hi).symm⟩
    · exact .inl hi

/-- Every table is as before, or the new namespace is bound in it, or it is that of the new one. -/
theorem exports_cases (htable : s'.bindings.exports? owner = some table) :
    s.bindings.exports? owner = some table ∨
      (canonical = s.bindings.symbols.nextId ∧ owner = target ∧ ∃ old,
        s.bindings.exports? owner = some old ∧ table = old.overwrite key canonical ∧
        s'.bindings.identity? canonical = some ⟨key, .namespaceKind, some target⟩) ∨
      table = .empty := by
  rcases h with ⟨hexp, -⟩ | ⟨hnew, hexp, hident⟩
  · exact .inl ((hexp owner).symm.trans htable)
  · rw [hexp] at htable
    split at htable
    next heq =>
      obtain ⟨old, hold, rfl⟩ := map_eq_some_iff.mp htable
      exact .inr (.inl ⟨hnew, heq, old, hold, rfl, (hident _).trans (if_pos rfl)⟩)
    · split at htable
      · exact .inr (.inr (Option.some.inj htable).symm)
      · exact .inl htable

/-- No claim is lost. -/
theorem claims (hclaims : s.bindings.Claims (.namespaceScope owner) id name) :
    s'.bindings.Claims (.namespaceScope owner) id name := by
  obtain ⟨table, htable, hclaim⟩ := hclaims
  rcases h with ⟨hexp, -⟩ | ⟨rfl, hexp, -⟩
  · exact ⟨table, (hexp owner).trans htable, hclaim⟩
  · by_cases heq : owner = target
    · refine ⟨_, (hexp owner).trans ((if_pos heq).trans ?_),
        hclaim.overwrite key s.bindings.symbols.nextId⟩
      rw [show s.bindings.exports? owner = some table from htable]
      rfl
    · have hne : owner ≠ s.bindings.symbols.nextId :=
        ne_nextId_of_exports (isSome_iff_exists.mpr ⟨table, htable⟩)
      exact ⟨table, (hexp owner).trans ((if_neg heq).trans ((if_neg hne).trans htable)), hclaim⟩

/-- The only new claim is that of the new namespace. -/
theorem claims_cases (hclaims : s'.bindings.Claims (.namespaceScope owner) id name) :
    s.bindings.Claims (.namespaceScope owner) id name ∨ s'.Attributed owner id name := by
  obtain ⟨table, htable, hclaim⟩ := hclaims
  rcases h.exports_cases htable with hold | ⟨-, rfl, old, hold, rfl, hident⟩ | rfl
  · exact .inl ⟨table, hold, hclaim⟩
  · rcases claims_of_overwrite hclaim with hclaim | ⟨rfl, rfl⟩
    · exact .inl ⟨old, hold, hclaim⟩
    · exact .inr ⟨_, _, hident, by simp, rfl, rfl, .inl rfl⟩
  · exact absurd hclaim not_claims_empty

end State.Admits

/-! ### Merging collects claims -/

/-- The claim of a symbol is known to a canonical namespace, or a canonical namespace has the name
for it. -/
def Carries (bound : Bindings) (s : State) (canonical id : SymbolId) (name : String) : Prop :=
  s.bindings.Claims (.namespaceScope canonical) id name ∨ bound.isNamespace id = true ∧
    ∃ holder, bound.Canonical holder ∧
      s.bindings.binding? (.namespaceScope canonical) name = some holder

/-- All claims to names in the table of a scope are carried by what stands for its namespace. -/
def Accounts (bound : Bindings) (s : State) (scope : BindingScope) : Prop :=
  ∀ {id : SymbolId} {name : String}, bound.Claims scope id name →
    Carries bound s (s.mergedSymbol scope.owner) id name

theorem Collects.carries (h : Collects bound s s') (hcarries : Carries bound s canonical id name) :
    Carries bound s' canonical id name := by
  refine hcarries.imp h.claims fun ⟨hns, holder, hholder, hname⟩ => ?_
  exact ⟨hns, holder, hholder, h.held hholder hname⟩

theorem Collects.accounts (h : Collects bound s s') (howner : s.Joined scope.owner)
    (hacc : Accounts bound s scope) :
    Accounts bound s' scope := fun hclaims => by
  rw [(h.joined howner).2]
  exact h.carries (hacc hclaims)

/-- A property of the entries that have been merged so far, which holds on when one more is entered
and when what is on record is added. -/
structure Gathers (bound : Bindings) (G : List Entry → State → Prop) : Prop where
  leaf {entries : List Entry} {s : State} {e : Entry} : G entries s → Collected bound s →
    s.Joined e.scope.owner → bound.binding? e.scope e.name = some e.id →
    bound.isNamespace e.id = false → G (entries ++ [e])
      (s.modifyExports (s.mergedSymbol e.scope.owner) (·.set e.name e.id))
  entered {entries : List Entry} {s : State} {e : Entry} {symbol : Symbol} : G entries s →
    Collected bound s → s.Joined e.scope.owner → bound.binding? e.scope e.name = some e.id →
    s.bindings.symbol? e.id = some symbol → symbol.isNamespace = true →
    G (entries ++ [e]) (s.enterNamespace (s.mergedSymbol e.scope.owner) (e.name, e.id) symbol).2
  adopted {entries : List Entry} {s : State} {scope : BindingScope} {source : SymbolTable} :
    G entries s → Collected bound s → s.Joined scope.owner →
    G entries (s.modifyExports (s.mergedSymbol scope.owner) (·.adopt source))

theorem Gathers.trivial (bound : Bindings) : Gathers bound fun _ _ => True :=
  ⟨fun _ _ _ _ _ => True.intro, fun _ _ _ _ _ _ => True.intro, fun _ _ _ => True.intro⟩

section

variable (htallied : Tallied tree bound) (hsit : Situated tree bound)

include htallied hsit

section

variable (h : Collected bound s) (howner : s.Joined scope.owner)
  (htarget : s.mergedSymbol scope.owner = target)

include h howner htarget

/-- Something else than a namespace is entered. -/
theorem Collected.enterLeaf (hentry : bound.binding? scope name = some id)
    (hleaf : bound.isNamespace id = false) :
    Collected bound (s.modifyExports target (·.set name id)) ∧
      Collects bound s (s.modifyExports target (·.set name id)) ∧
      (s.modifyExports target (·.set name id)).bindings.Claims (.namespaceScope target) id name := by
  obtain ⟨hcanon, hopen⟩ := h.unified.canonical_of_joined howner
  obtain ⟨table, htable⟩ := h.exists_table howner
  rw [htarget] at hcanon hopen htable
  obtain ⟨huni, -⟩ := h.unified.addLeaf hsit hcanon hopen hentry hleaf
  have hcolls : Collects bound s (s.modifyExports target (·.set name id)) := by
    refine collects_modifyExports (fun {table key holder} _ _ hfind => ?_)
      fun _ hclaims => hclaims.set _ _
    rw [find?_set_eq]
    split
    next heq =>
      rw [← heq, hfind]
      rfl
    · exact hfind
  refine ⟨h.modifyExports huni hcolls (fun _ hfair => hfair.set _ _) fun _ hclaims => ?_,
    hcolls, table.set name id, ?_, table.claims_set name id⟩
  · refine (claims_of_set hclaims).imp_right ?_
    rintro ⟨rfl, rfl⟩
    have hclaimed := claims_of_binding? hentry
    obtain ⟨i, hi, hname, hkind, hpar⟩ := htallied.sound hclaimed
    exact ⟨i, _, (h.unified.identity_old (old_of_claims htallied hsit hclaimed)).trans hi,
      hkind, hname, hpar, Or.inr ⟨howner, htarget⟩⟩
  · rw [scopeTable?, exports?_modifyExports_eq, if_pos rfl, htable]
    rfl

/-- What a table of a file has on record is added, after what it binds has been entered. -/
theorem Collected.adopt (hsource : bound.scopeTable? scope = some source)
    (hent : ∀ {key id}, source.find? key = some id → Carries bound s target id key) :
    Collected bound (s.modifyExports target (·.adopt source)) ∧
      Collects bound s (s.modifyExports target (·.adopt source)) ∧
      ∀ {key id}, id ∈ source.contestants key →
        (s.modifyExports target (·.adopt source)).bindings.Claims (.namespaceScope target) id key := by
  obtain ⟨hcanon, -⟩ := h.unified.canonical_of_joined howner
  obtain ⟨table, htable⟩ := h.exists_table howner
  rw [htarget] at hcanon htable
  obtain ⟨huni, -⟩ := h.unified.noteDuplicates hcanon source.duplicates.entries rfl
  have hrec : ∀ {id key}, id ∈ source.contestants key → bound.Claims scope id key :=
    fun hid => ⟨source, hsource, Or.inr hid⟩
  have hcolls : Collects bound s (s.modifyExports target (·.adopt source)) :=
    collects_modifyExports (fun _ _ hholder => (find?_adopt _ _ _).trans hholder)
      fun _ hclaims => hclaims.adopt source
  refine ⟨h.modifyExports huni hcolls (fun {old} hold hfair => ?_)
    (fun {old id name} hold hclaims => ?_), hcolls, fun {key id} hid => ?_⟩
  · refine hfair.adopt ((htallied.fair hsource).mono fun _ => False.elim) fun {key id} hid => ?_
    rcases hent hid with ⟨known, hknown, hclaims⟩ | ⟨-, holder, hholder, hname⟩
    · obtain rfl := mem_unique hold hknown
      exact .inl hclaims
    · obtain ⟨known, hknown, hname⟩ := bind_eq_some_iff.mp hname
      obtain rfl := mem_unique hold hknown
      refine .inr ⟨holder, hname, hholder, ?_⟩
      rintro x hx rfl
      exact old_of_claims htallied hsit (hrec hx) hholder
  · rcases hclaims with hclaims | hid
    · exact .inl (.inl ((find?_adopt _ _ _).symm.trans hclaims))
    refine (mem_contestants_adopt.mp hid).imp Or.inr fun hid => ?_
    obtain ⟨i, hi, hname, hkind, hpar⟩ := htallied.sound (hrec hid)
    have hnot := old_of_claims htallied hsit (hrec hid)
    exact ⟨i, _, (h.unified.identity_old hnot).trans hi, hkind, hname, hpar,
      Or.inr ⟨howner, htarget⟩⟩
  · refine ⟨table.adopt source, ?_, Or.inr (mem_contestants_adopt.mpr (.inr hid))⟩
    rw [scopeTable?, exports?_modifyExports_eq, if_pos rfl, htable]
    rfl

/-- A namespace is entered: what is bound to its name is its canonical namespace. -/
theorem Collected.enterNamespace (hentry : bound.binding? scope name = some id)
    (hsym : s.bindings.symbol? id = some symbol) (hns : symbol.isNamespace = true) :
    Collected bound (s.enterNamespace target (name, id) symbol).2 ∧
      Collects bound s (s.enterNamespace target (name, id) symbol).2 ∧
      Admitted s (s.enterNamespace target (name, id) symbol).2 target name id
        (s.enterNamespace target (name, id) symbol).1 := by
  subst htarget
  obtain ⟨hcanon, hopen⟩ := h.unified.canonical_of_joined howner
  have hclaimed := claims_of_binding? hentry
  have hold := old_of_claims htallied hsit hclaimed
  obtain ⟨i, hi, hname, -, hpar⟩ := htallied.sound hclaimed
  obtain rfl : symbol.name = name := by
    rw [identity?, ← h.unified.old hold, hsym] at hi
    rw [← hname, ← Option.some.inj hi]
    rfl
  obtain ⟨huni, hadm⟩ := h.unified.enterNamespace hsit hcanon hopen hentry hsym hns
  have hadmits := s.enterNamespace_admits id (of_decide_eq_true hns)
    (ne_nextId_of_exports (h.unified.exports hcanon hopen))
  generalize s.enterNamespace (s.mergedSymbol scope.owner) (symbol.name, id) symbol = entered at *
  obtain ⟨canonical, s'⟩ := entered
  have hheld : ∀ {owner x : SymbolId} {key : String}, bound.Canonical x →
      s.bindings.binding? (.namespaceScope owner) key = some x →
      s'.bindings.binding? (.namespaceScope owner) key = some x := by
    intro owner x key hx hfound
    rcases hadm.entries with ⟨hsame, -⟩ | ⟨-, hnone, hnew, -⟩
    · exact (hsame _ _).trans hfound
    · refine (hnew _ _).trans ((if_neg ?_).trans hfound)
      rintro ⟨hscope, rfl⟩
      cases hscope
      have hleaf := filter_eq_none_iff.mp hnone x hfound
      exact h.unified.leaf hcanon hfound (Bool.eq_false_iff.mpr hleaf) hx
  have hcolls : Collects bound s s' := ⟨h.unified.mergedSymbol_admitted hsit h.located hentry huni hadm,
    hheld, hadmits.claims⟩
  refine ⟨h.grow huni hcolls hadmits.identity (fun {x found} hfind => ?_) (fun {x j} hj => ?_)
    (fun {owner table} howner htable => ?_) hadmits.claims_cases, hcolls, hadm⟩
  · rw [hadm.mergedSymbols] at hfind
    rcases find?_insert_cases hfind with ⟨rfl, rfl⟩ | hfind
    · exact .inr ⟨i, scope.owner, hi, hpar, howner, hname ▸ hadm.found⟩
    · exact .inl hfind
  · refine (hadmits.identity_cases hj).imp_right ?_
    rintro ⟨rfl, rfl⟩
    exact ⟨_, rfl, hcanon, hadm.found⟩
  · rcases hadmits.exports_cases htable with hold | ⟨rfl, -, old, hold, rfl, -⟩ | rfl
    · exact h.fair howner hold
    · exact (h.fair howner hold).overwrite _ (.inr h.unified.size_le)
    · exact .empty _

end

/-! ### Tables and files -/

/-- Entries have been merged, and with them the tables of the namespaces among them. -/
structure Absorbs (bound : Bindings) (G : List Entry → State → Prop) (entered : List Entry)
    (s s' : State) : Prop where
  collected : Collected bound s'
  collects : Collects bound s s'
  joined {id : SymbolId} : s'.Joined id → s.Joined id ∨ Accounts bound s' (.namespaceScope id)
  gathers {entries : List Entry} : G entries s → G (entries ++ entered) s'

section

variable {G : List Entry → State → Prop} (hgathers : Gathers bound G)

omit htallied hsit in
theorem Absorbs.refl (h : Collected bound s) : Absorbs bound G [] s s :=
  ⟨h, .refl _ _, Or.inl, fun hs => by rwa [List.append_nil]⟩

omit htallied hsit in
theorem Absorbs.trans {entered more : List Entry} (h : Absorbs bound G entered s s')
    (h' : Absorbs bound G more s' s'') : Absorbs bound G (entered ++ more) s s'' := by
  refine ⟨h'.collected, h.collects.trans h'.collects, fun {id} hid => ?_, fun hs => ?_⟩
  · rcases h'.joined hid with hid | hnew
    · exact (h.joined hid).imp_right (h'.collects.accounts hid)
    · exact .inr hnew
  · rw [← List.append_assoc]
    exact h'.gathers (h.gathers hs)

include hgathers

/-- An entry is merged, and the table of the namespace that it may be. -/
theorem mergeEntry_absorbs {mergeNested : State → SymbolTable → SymbolId → State}
    {nested : List Entry} (h : Collected bound s) (howner : s.Joined scope.owner)
    (htarget : s.mergedSymbol scope.owner = target) (hentry : bound.binding? scope name = some id)
    (hnested : ∀ {s : State} {source : SymbolTable} {target : SymbolId}, Collected bound s →
      s.Joined id → s.mergedSymbol id = target → bound.exports? id = some source →
      Absorbs bound G nested s (mergeNested s source target) ∧
        Accounts bound (mergeNested s source target) (.namespaceScope id)) :
    ∀ s', s' = State.mergeEntry mergeNested target s (name, id) →
      Absorbs bound G (⟨scope, name, id⟩ :: if bound.isNamespace id then nested else []) s s' ∧
        Carries bound s' target id name := by
  rintro s' rfl
  rcases h.unified.mergeEntry_cases hsit mergeNested target hentry with
    ⟨symbol, exports, hsym, hns, hkind, hexp, heq⟩ | ⟨hleaf, heq⟩
  · rw [heq, hkind]
    obtain ⟨hcoll, hcolls, hadm⟩ :=
      h.enterNamespace htallied hsit howner htarget hentry hsym hns
    have hgathered : ∀ {entries}, G entries s → G (entries ++ [⟨scope, name, id⟩])
        (s.enterNamespace target (name, id) symbol).2 := fun hs =>
      htarget ▸ hgathers.entered hs h howner hentry hsym hns
    obtain ⟨hcanon, -⟩ := h.unified.canonical_of_joined howner
    rw [htarget] at hcanon
    have hle := (hcoll.unified.child hcanon hadm.found hadm.isNamespace).1
    generalize s.enterNamespace target (name, id) symbol = entered at *
    obtain ⟨canonical, s₁⟩ := entered
    have hnow : s₁.mergedSymbols.find? id = some canonical := by
      rw [hadm.mergedSymbols, find?_insert, if_pos rfl]
    obtain ⟨habsorbs, haccounts⟩ := hnested hcoll (.inr (isSome_iff_exists.mpr ⟨_, hnow⟩))
      (State.mergedSymbol_of_find hnow) hexp
    refine ⟨⟨habsorbs.collected, hcolls.trans habsorbs.collects, fun {other} hother => ?_,
      fun hs => by simpa using habsorbs.gathers (hgathered hs)⟩, Or.inr ⟨hkind, canonical,
      Or.inr hle, habsorbs.collects.held (.inr hle) hadm.found⟩⟩
    rcases habsorbs.joined hother with hjoined | hacc
    · by_cases heq : other = id
      · subst heq
        exact .inr haccounts
      · refine .inl (hjoined.imp_right fun hfind => ?_)
        rwa [hadm.mergedSymbols, find?_insert, if_neg heq] at hfind
    · exact .inr hacc
  · rw [heq, hleaf]
    obtain ⟨hcoll, hcolls, hclaims⟩ :=
      h.enterLeaf htallied hsit howner htarget hentry hleaf
    exact ⟨⟨hcoll, hcolls, Or.inl, fun hs => htarget ▸ hgathers.leaf hs h howner hentry hleaf⟩,
      .inl hclaims⟩

/-- Namespaces are nested less deeply than there are symbols. -/
theorem mergeTable_absorbs {depth : Nat} (hdepth : bound.symbols.size ≤ depth + scope.owner.index)
    (h : Collected bound s) (howner : s.Joined scope.owner)
    (htarget : s.mergedSymbol scope.owner = target)
    (hsource : bound.scopeTable? scope = some source) :
    Absorbs bound G (bound.entriesWithin depth scope) s (State.mergeTable depth s source target) ∧
      Accounts bound (State.mergeTable depth s source target) scope := by
  induction depth generalizing s scope source target with
  | zero =>
    have hlt := h.index_lt_of_joined hsit howner
    omega
  | succ depth ih =>
    -- After some of the entries, their claims are carried and the namespaces among them accounted for.
    have hentries : ∀ (table : List (String × SymbolId)) {s : State}, Collected bound s →
        s.Joined scope.owner → s.mergedSymbol scope.owner = target →
        (∀ entry ∈ table, bound.binding? scope entry.1 = some entry.2) →
        ∀ s', s' = table.foldl (State.mergeEntry (State.mergeTable depth) target) s →
        Absorbs bound G (table.flatMap fun entry =>
            ⟨scope, entry.1, entry.2⟩ :: if bound.isNamespace entry.2 then
              bound.entriesWithin depth (.namespaceScope entry.2) else []) s s' ∧
          ∀ entry ∈ table, Carries bound s' target entry.2 entry.1 := by
      intro table
      induction table with
      | nil =>
        rintro s h _ _ _ s' rfl
        exact ⟨.refl h, by simp⟩
      | cons entry rest ihrest =>
        rintro s h howner htarget hlisted s' rfl
        have hentry := hlisted entry (.head _)
        have hlt := (hsit.index_owner_lt hentry).1
        obtain ⟨hfirst, hcarries⟩ :=
          mergeEntry_absorbs htallied hsit hgathers h howner htarget hentry
            (fun h hjoined htarget hexp =>
              ih (by simp only [owner]; omega) h hjoined htarget hexp) _ rfl
        obtain ⟨howner', hsame⟩ := hfirst.collects.joined howner
        obtain ⟨hothers, hcarries'⟩ := ihrest hfirst.collected howner' (hsame.trans htarget)
          (fun e he => hlisted e (.tail _ he)) _ rfl
        rw [List.flatMap_cons]
        exact ⟨hfirst.trans hothers,
          List.forall_mem_cons.mpr ⟨hothers.collects.carries hcarries, hcarries'⟩⟩
    obtain ⟨hbefore, hcarries⟩ := hentries source.bound.entries h howner htarget
      (fun entry hentry => by
        rw [binding?, hsource]
        exact find?_of_mem_entries hentry) _ rfl
    rw [State.mergeTable, entriesWithin, hsource, getD_some]
    generalize source.bound.entries.foldl (State.mergeEntry (State.mergeTable depth) target) s = s₁
      at *
    obtain ⟨howner', hsame⟩ := hbefore.collects.joined howner
    have hbound : ∀ {key id}, source.find? key = some id → Carries bound s₁ target id key :=
      fun hfind => hcarries _ (find?_eq_some_iff.mp hfind)
    obtain ⟨hcoll, hcolls, hrec⟩ := hbefore.collected.adopt htallied hsit howner'
      (hsame.trans htarget) hsource hbound
    have hadopts : Absorbs bound G [] s₁ (s₁.modifyExports target (·.adopt source)) := by
      refine ⟨hcoll, hcolls, Or.inl, fun hs => ?_⟩
      rw [List.append_nil, ← htarget, ← hsame]
      exact hgathers.adopted hs hbefore.collected howner'
    have hall := hbefore.trans hadopts
    rw [List.append_nil] at hall
    refine ⟨hall, fun {id name} hclaims => ?_⟩
    obtain ⟨table, htable, hclaims⟩ := hclaims
    obtain rfl := mem_unique hsource htable
    change Carries bound _ (s₁.mergedSymbol scope.owner) id name
    rw [hsame, htarget]
    rcases hclaims with hfind | hid
    · exact hcolls.carries (hbound hfind)
    · exact .inl (hrec hid)

/-- Merging the files enters everything that stands in a table inside a file, file by file. -/
theorem mergeFiles_absorbs (files : List NodeId) (h : Collected bound s) :
    Absorbs bound G (files.flatMap bound.entries) s (s.mergeFiles files) ∧
      ∀ file ∈ files, Accounts bound (s.mergeFiles files) (.file file) := by
  rw [State.mergeFiles]
  induction files generalizing s with
  | nil => exact ⟨.refl h, by simp⟩
  | cons file rest ih =>
    obtain ⟨hfirst, haccounts⟩ : Absorbs bound G (bound.entries file) s (s.mergeFile file) ∧
        Accounts bound (s.mergeFile file) (.file file) := by
      rw [State.mergeFile, h.unified.fileExports]
      cases hexp : bound.fileExports.find? file with
      | none =>
        have htable : bound.scopeTable? (.file file) = none := hexp
        have hnil : bound.entries file = [] := by
          rw [Bindings.entries, entriesWithin, htable]
          rfl
        refine ⟨hnil ▸ .refl h, ?_⟩
        rintro _ _ ⟨table, hsome, -⟩
        simp [htable] at hsome
      | some exports =>
        have hsize := h.unified.size_le
        rw [show bound.entries file = bound.entriesWithin (s.bindings.symbols.size + 1) (.file file)
          from hsit.entriesWithin_stable (by omega) (by omega)]
        exact mergeTable_absorbs htallied hsit hgathers (by omega) h (.inl rfl)
          h.unified.mergedSymbol_global hexp
    obtain ⟨hothers, hfiles⟩ := ih hfirst.collected
    exact ⟨hfirst.trans hothers, List.forall_mem_cons.mpr
      ⟨hothers.collects.accounts (.inl rfl) haccounts, hfiles⟩⟩

end

/-- Before merging, the global namespace has what was bound before all files. -/
theorem Collected.initial (hc : tree.Complete) (hbinds : s.bindings = bound)
    (hmerged : s.mergedSymbols = .empty) : Collected bound s := by
  refine ⟨.initial hc hsit hbinds hmerged, fun hfind => ?_, fun hle hi => ?_,
    fun {canonical table} _ htable => ?_, fun _ hclaims => ?_⟩
  · simp [hmerged] at hfind
  · rw [hbinds] at hi
    exact absurd (index_lt_size hi) (Nat.not_lt.mpr hle)
  · rw [hbinds] at htable
    have hscope : bound.scopeTable? (.namespaceScope canonical) = some table := htable
    exact (htallied.fair hscope).mono fun _ => False.elim
  · rw [hbinds] at hclaims
    obtain ⟨i, hi, hname, hkind, hpar⟩ := htallied.sound hclaims
    exact ⟨i, _, hbinds ▸ hi, hkind, hname, hpar, Or.inl rfl⟩

/-- When all files have been merged, all tables of the namespaces that canonical ones stand for are
accounted for. -/
theorem mergeFiles_accounts (hc : tree.Complete) (hbinds : s.bindings = bound)
    (hmerged : s.mergedSymbols = .empty) : Collected bound (s.mergeFiles tree.files) ∧
      ∀ {scope : BindingScope}, (s.mergeFiles tree.files).Joined scope.owner →
        (∀ file, scope = .file file → file ∈ tree.files) →
        Accounts bound (s.mergeFiles tree.files) scope := by
  have hinit := Collected.initial htallied hsit hc hbinds hmerged
  have hglobal : Accounts bound s (.namespaceScope globalSymbol) := fun hclaims => by
    refine .inl ?_
    rw [owner, hinit.unified.mergedSymbol_global, hbinds]
    exact hclaims
  obtain ⟨hall, hfiles⟩ := mergeFiles_absorbs htallied hsit (.trivial bound) tree.files hinit
  refine ⟨hall.collected, fun {scope} hjoined hlisted => ?_⟩
  cases scope with
  | file file => exact hfiles file (hlisted file rfl)
  | namespaceScope id =>
    rcases hall.joined hjoined with hbefore | hacc
    · obtain rfl : id = globalSymbol := by
        simpa [State.Joined, hmerged, owner] using hbefore
      exact hall.collects.accounts hbefore hglobal
    · exact hacc

/-! ### Names are contested that several symbols have -/

omit htallied in
theorem not_canonical_of_apart (hi : bound.identity? id = some i) (hpar : i.parent = some outer)
    (hapart : ¬ s.Joined outer) : ¬ bound.Canonical outer := by
  rintro (rfl | hle)
  · exact hapart (.inl rfl)
  · obtain ⟨hlt, -⟩ := hsit.parent hi hpar
    have hsize := index_lt_size hi
    omega

omit htallied hsit in
/-- What claims a name is a symbol of the files, or a canonical namespace that has the name. -/
theorem Collected.claims_cases (h : Collected bound s) (hclaims : s.Claims id name owner) :
    (∃ i outer, bound.identity? id = some i ∧ i.kind ≠ .templateParameter ∧ i.name = name ∧
        i.parent = some outer ∧ s.mergedSymbol outer = owner) ∨
      bound.Canonical owner ∧ s.bindings.binding? (.namespaceScope owner) name = some id := by
  obtain ⟨i, outer, hi, hkind, hname, hpar, howner⟩ := State.claims_iff.mp hclaims
  by_cases hid : bound.Canonical id
  · rcases hid with rfl | hle
    · obtain rfl := mem_unique h.unified.global hi
      simp at hpar
    · obtain ⟨outer', hpar', hcanon, hfound⟩ := h.grown hle hi
      obtain rfl := mem_unique hpar hpar'
      rw [h.unified.mergedSymbol_canonical hcanon] at howner
      subst howner hname
      exact .inr ⟨hcanon, hfound⟩
  · rw [h.unified.identity_old hid] at hi
    exact .inl ⟨i, outer, hi, hkind, hname, hpar, howner⟩

/-- A symbol in a namespace that a canonical one stands for. -/
theorem Collected.mem_contestants_joined (h : Collected bound s)
    (hacc : ∀ {scope : BindingScope}, s.Joined scope.owner →
      (∀ file, scope = .file file → file ∈ tree.files) → Accounts bound s scope)
    (hi : bound.identity? id = some i) (hkind : i.kind ≠ .templateParameter)
    (hleaf : i.kind ≠ .namespaceKind) (hpar : i.parent = some outer) (hjoined : s.Joined outer) :
    (∃ table, s.bindings.exports? (s.mergedSymbol outer) = some table ∧
        id ∈ table.contestants i.name) ↔
      ∃ other, other ≠ id ∧ s.Claims other i.name (s.mergedSymbol outer) := by
  obtain ⟨hcanon, -⟩ := h.unified.canonical_of_joined hjoined
  have hcarries : ∀ {other outer' : SymbolId} {j : Symbol.Identity},
      bound.identity? other = some j → j.kind ≠ .templateParameter → j.parent = some outer' →
      s.Joined outer' → Carries bound s (s.mergedSymbol outer') other j.name := by
    intro other outer' j hj hkind hpar hjoined
    obtain ⟨scope, rfl, hlisted, hclaims⟩ := htallied.counted hj hkind hpar
    exact hacc hjoined hlisted hclaims
  have hold : ¬ bound.Canonical id := by
    obtain ⟨scope, -, -, hclaims⟩ := htallied.counted hi hkind hpar
    exact old_of_claims htallied hsit hclaims
  constructor
  · rintro ⟨table, htable, hid⟩
    obtain ⟨other, hne, hclaims⟩ := (h.fair hcanon htable).rival hid
    obtain ⟨j, outer', hj, hkind', hname, hpar', hstands⟩ :=
      h.sound hcanon ⟨table, htable, hclaims⟩
    refine ⟨other, hne, State.claims_iff.mpr ⟨j, outer', hj, hkind', hname, hpar', ?_⟩⟩
    rcases hstands with rfl | ⟨-, hsame⟩
    · exact h.unified.mergedSymbol_canonical hcanon
    · exact hsame
  · rintro ⟨other, hne, hother⟩
    obtain ⟨table, htable, hclaims⟩ : s.bindings.Claims (.namespaceScope (s.mergedSymbol outer)) id
        i.name := (hcarries hi hkind hpar hjoined).resolve_right fun ⟨hns, _⟩ => by
      obtain ⟨j, hj, hj'⟩ := isNamespace_iff.mp hns
      obtain rfl := mem_unique hi hj
      exact hleaf hj'
    -- The rival is known here, or a namespace stands for it.
    obtain ⟨rival, hrival, known, hknown, hclaims'⟩ : ∃ rival, rival ≠ id ∧
        s.bindings.Claims (.namespaceScope (s.mergedSymbol outer)) rival i.name := by
      rcases h.claims_cases hother with
        ⟨j, outer', hj, hkind', hname, hpar', hsame⟩ | ⟨-, hfound⟩
      · have hjoined' : s.Joined outer' := by
          by_contra hnot
          rw [State.mergedSymbol_of_not_joined hnot] at hsame
          exact not_canonical_of_apart hsit hj hpar' hnot (hsame ▸ hcanon)
        have hcarried := hcarries hj hkind' hpar' hjoined'
        rw [hsame, hname] at hcarried
        rcases hcarried with hclaims' | ⟨-, holder, hholder, hfound⟩
        · exact ⟨other, hne, hclaims'⟩
        · exact ⟨holder, fun heq => hold (heq ▸ hholder), claims_of_binding? hfound⟩
      · exact ⟨other, hne, claims_of_binding? hfound⟩
    obtain rfl := mem_unique htable hknown
    exact ⟨table, htable, (h.fair hcanon htable).mem_contestants hclaims hclaims' hrival hold⟩

/-- A symbol in a namespace that was not merged, because something else had its name. -/
theorem Collected.mem_contestants_apart (h : Collected bound s) (hi : bound.identity? id = some i)
    (hkind : i.kind ≠ .templateParameter) (hpar : i.parent = some outer)
    (hapart : ¬ s.Joined outer) :
    (∃ table, s.bindings.exports? (s.mergedSymbol outer) = some table ∧
        id ∈ table.contestants i.name) ↔
      ∃ other, other ≠ id ∧ s.Claims other i.name (s.mergedSymbol outer) := by
  have hold : ¬ bound.Canonical outer := not_canonical_of_apart hsit hi hpar hapart
  have hexp : s.bindings.exports? outer = bound.scopeTable? (.namespaceScope outer) := by
    rw [scopeTable?, exports?, exports?, h.unified.old hold]
  have hcounted : ∀ {other : SymbolId} {j : Symbol.Identity}, bound.identity? other = some j →
      j.kind ≠ .templateParameter → j.parent = some outer →
      bound.Claims (.namespaceScope outer) other j.name := by
    intro other j hj hkind hpar
    obtain ⟨scope, howner, -, hclaims⟩ := htallied.counted hj hkind hpar
    cases scope with
    | file file => exact absurd (Or.inl howner.symm) hapart
    | namespaceScope owner => exact howner ▸ hclaims
  rw [State.mergedSymbol_of_not_joined hapart, hexp]
  constructor
  · rintro ⟨table, htable, hid⟩
    obtain ⟨other, hne, hclaims⟩ := (htallied.fair htable).rival hid
    have hclaimed : bound.Claims (.namespaceScope outer) other i.name := ⟨table, htable, hclaims⟩
    obtain ⟨j, hj, hname, hkind', hpar'⟩ := htallied.sound hclaimed
    refine ⟨other, hne, State.claims_iff.mpr ⟨j, outer, ?_, hkind', hname, hpar',
      State.mergedSymbol_of_not_joined hapart⟩⟩
    exact (h.unified.identity_old (old_of_claims htallied hsit hclaimed)).trans hj
  · rintro ⟨other, hne, hother⟩
    rcases h.claims_cases hother with
      ⟨j, outer', hj, hkind', hname, hpar', hsame⟩ | ⟨hcanon, -⟩
    · have hapart' : ¬ s.Joined outer' := fun hjoined =>
        hold (hsame ▸ (h.unified.canonical_of_joined hjoined).1)
      rw [State.mergedSymbol_of_not_joined hapart'] at hsame
      subst hsame
      obtain ⟨table, htable, hclaims⟩ := hcounted hi hkind hpar
      obtain ⟨known, hknown, hclaims'⟩ := hcounted hj hkind' hpar'
      obtain rfl := mem_unique htable hknown
      exact ⟨table, htable, (htallied.fair htable).mem_contestants hclaims (hname ▸ hclaims') hne
        (fun hnot => hnot)⟩
    · exact absurd hcanon hold

/-- A symbol is on record in a namespace that stands for itself. -/
def State.Contests (s : State) (id : SymbolId) : Prop :=
  ∃ owner table name, s.bindings.isNamespace owner = true ∧ s.mergedSymbol owner = owner ∧
    s.bindings.exports? owner = some table ∧ id ∈ table.contestants name

/-- Symbols are on record under their names, in their namespaces or in what stands for those. -/
theorem Collected.exists_contestants_iff (h : Collected bound s) (hi : bound.identity? id = some i)
    (hkind : i.kind ≠ .templateParameter) (hpar : i.parent = some outer) : s.Contests id ↔
      ∃ table, s.bindings.exports? (s.mergedSymbol outer) = some table ∧
        id ∈ table.contestants i.name := by
  constructor
  · rintro ⟨owner, table, name, hns, hself, htable, hid⟩
    obtain ⟨rfl, hstands⟩ : i.name = name ∧ s.mergedSymbol outer = owner := by
      by_cases hcanon : bound.Canonical owner
      · obtain ⟨j, outer', hj, -, hname, hpar', hstands⟩ :=
          h.sound hcanon ⟨table, htable, Or.inr hid⟩
        obtain ⟨scope, -, -, hclaims⟩ := htallied.counted hi hkind hpar
        rw [h.unified.identity_old (old_of_claims htallied hsit hclaims)] at hj
        obtain rfl := mem_unique hi hj
        obtain rfl := mem_unique hpar hpar'
        refine ⟨hname, ?_⟩
        rcases hstands with rfl | ⟨-, hsame⟩
        · exact hself
        · exact hsame
      · have hbound : bound.scopeTable? (.namespaceScope owner) = some table := by
          rw [scopeTable?, exports?, ← h.unified.old hcanon]
          exact htable
        obtain ⟨j, hj, hname, -, hpar'⟩ := htallied.sound ⟨table, hbound, Or.inr hid⟩
        obtain rfl := mem_unique hi hj
        obtain rfl := mem_unique hpar hpar'
        exact ⟨hname, hself⟩
    exact ⟨table, hstands ▸ htable, hid⟩
  · rintro ⟨table, htable, hid⟩
    refine ⟨_, table, i.name, ?_, ?_, htable, hid⟩
    · by_cases hjoined : s.Joined outer
      · exact (h.unified.canonical_of_joined hjoined).2
      · have hold : ¬ bound.Canonical outer := not_canonical_of_apart hsit hi hpar hjoined
        rw [State.mergedSymbol_of_not_joined hjoined, h.unified.isNamespace_old hold]
        exact (hsit.parent hi hpar).2
    · by_cases hjoined : s.Joined outer
      · exact h.unified.mergedSymbol_canonical (h.unified.canonical_of_joined hjoined).1
      · rw [State.mergedSymbol_of_not_joined hjoined, State.mergedSymbol_of_not_joined hjoined]

/-- Something else than a namespace is on record exactly if another symbol claims its name in its
namespace. -/
theorem Collected.contests_iff (h : Collected bound s)
    (hacc : ∀ {scope : BindingScope}, s.Joined scope.owner →
      (∀ file, scope = .file file → file ∈ tree.files) → Accounts bound s scope)
    (hi : bound.identity? id = some i) (hkind : i.kind ≠ .templateParameter)
    (hleaf : i.kind ≠ .namespaceKind) (hpar : i.parent = some outer) :
    s.Contests id ↔ ∃ other, other ≠ id ∧ s.Claims other i.name (s.mergedSymbol outer) := by
  rw [h.exists_contestants_iff htallied hsit hi hkind hpar]
  by_cases hjoined : s.Joined outer
  · exact h.mem_contestants_joined htallied hsit hacc hi hkind hleaf hpar hjoined
  · exact h.mem_contestants_apart htallied hsit hi hkind hpar hjoined

end

end Checking

end ApiSchema
