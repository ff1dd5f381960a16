import ApiSchema.Binding.Program
import ApiSchema.Proofs.Syntax.Lowering

/-!
# Consistent bindings

Bindings are consistent with a tree if symbols and nodes belong together: the symbol of a node lists
the node among its declarations, everything but a namespace is declared by exactly one node, and
declarations stand in files and namespaces. Of the tables, only those of template declarations
hold template parameters, each the ones of its own declaration. Binding a program yields consistent
bindings, because every statement is bound at most once.
-/

namespace ApiSchema

open OrderedMap NodeKind Option

variable {declarations : List NodeId} {id changed symbol : SymbolId} {f : SymbolTable → SymbolTable}
  {n : NodeId} {table : SymbolTable} {name : String} {found : SymbolId} {kind : NodeKind}

/-- The kind of symbol that a node of a kind declares. -/
def NodeKind.symbolKind? : NodeKind → Option SymbolKind
  | namespaceStatement _ => some .namespaceKind
  | modelStatement _ => some .model
  | operationStatement _ => some .operation
  | interfaceStatement _ => some .interfaceKind
  | enumStatement _ => some .enumKind
  | aliasStatement _ => some .aliasKind
  | intrinsicStatement _ => some .intrinsic
  | templateParameterDeclaration _ => some .templateParameter
  | _ => none

attribute [simp] symbolKind?.eq_1 symbolKind?.eq_2 symbolKind?.eq_3 symbolKind?.eq_4
  symbolKind?.eq_5 symbolKind?.eq_6 symbolKind?.eq_7 symbolKind?.eq_8 symbolKind?.eq_9

theorem NodeKind.isTemplatable_of_templateParameters {symbolKind : SymbolKind}
    (h : kind.templateParameters ≠ []) (hsymKind : kind.symbolKind? = some symbolKind) :
    symbolKind.isTemplatable = true := by
  cases kind with
  | modelStatement | interfaceStatement | aliasStatement =>
    cases hsymKind
    rfl
  | _ => exact absurd rfl h

/-! ### Symbol tables -/

namespace SymbolTable

variable {other : String} {symbol : SymbolId}

/-- The first symbol that claims a name has it. -/
theorem find?_set_eq (table : SymbolTable) (name key : String) (symbol : SymbolId) :
    (table.set name symbol).find? key =
      if key = name then (table.find? name).or (some symbol) else table.find? key := by
  rw [set]
  split
  next hnone =>
    rw [find?, find?_insert, hnone]
    rfl
  next existing hexist =>
    have hsame : ∀ table' : SymbolTable, table'.find? key = table.find? key →
        table'.find? key = if key = name then (table.find? name).or (some symbol)
          else table.find? key := by
      intro table' htable
      split
      next heq =>
        rw [htable, heq, hexist]
        rfl
      · exact htable
    split
    · exact hsame _ rfl
    · exact hsame _ rfl

theorem find?_set (h : (table.set name symbol).find? other = some found) :
    found = symbol ∨ table.find? other = some found := by
  rw [find?_set_eq] at h
  split at h
  next heq =>
    rw [heq]
    exact (or_eq_some_iff.mp h).symm.imp_left fun h => (some.inj h.2).symm
  · exact .inr h

theorem find?_overwrite_eq (table : SymbolTable) (name key : String) (symbol : SymbolId) :
    (table.overwrite name symbol).find? key =
      if key = name then some symbol else table.find? key := by
  have hinsert : (table.overwrite name symbol).find? key =
      (table.bound.insert name symbol).find? key := by
    rw [overwrite]
    split
    · rfl
    · split <;> rfl
  rw [hinsert, find?_insert]
  rfl

/-- After setting the entries of a list, a table finds what it found before or an entry. -/
theorem find?_foldl_set {entries : List (String × SymbolId)}
    (h : (entries.foldl (fun table entry => table.set entry.1 entry.2) table).find? other =
      some found) :
    (∃ entry ∈ entries, entry.2 = found) ∨ table.find? other = some found := by
  induction entries generalizing table with
  | nil => exact .inr h
  | cons entry rest ih =>
    rcases ih h with ⟨e, he, hfound⟩ | h
    · exact .inl ⟨e, List.mem_cons_of_mem _ he, hfound⟩
    · rcases find?_set h with rfl | h
      · exact .inl ⟨entry, List.mem_cons_self, rfl⟩
      · exact .inr h

theorem find?_foldl_recordDuplicates (entries : List (String × List SymbolId)) :
    (entries.foldl (fun table entry => table.recordDuplicates entry.1 entry.2) table).find? other =
      table.find? other := by
  induction entries generalizing table with
  | nil => rfl
  | cons entry rest ih => exact ih

theorem find?_of_mem_entries {entry : String × SymbolId} (h : entry ∈ table.bound.entries) :
    table.find? entry.1 = some entry.2 :=
  find?_eq_some_iff.mpr h

end SymbolTable

/-! ### Consistency -/

namespace Bindings

variable {tree : Tree} {b b' : Bindings}

/-- What kind of thing a symbol is and which nodes declare it. -/
def profile? (b : Bindings) (id : SymbolId) : Option (SymbolKind × List NodeId) :=
  (b.symbol? id).map fun symbol => (symbol.kind, symbol.declarations)

/-- A symbol that tables other than those of template declarations can hold. -/
def Shared (b : Bindings) (id : SymbolId) : Prop :=
  ∃ kind declarations, b.profile? id = some (kind, declarations) ∧ kind ≠ .templateParameter

/-- Symbols and nodes belong together, and tables hold the symbols they may hold. -/
structure Consistent (tree : Tree) (b : Bindings) : Prop where
  declared {n : NodeId} {id : SymbolId} : b.symbolOf? n = some id →
    ∃ kind declarations, b.profile? id = some (kind, declarations) ∧ n ∈ declarations
  kind {id : SymbolId} {kind : SymbolKind} {declarations : List NodeId} {n : NodeId} :
    b.profile? id = some (kind, declarations) → n ∈ declarations →
    ∃ nodeKind, tree.kind? n = some nodeKind ∧ nodeKind.symbolKind? = some kind
  unique {id : SymbolId} {kind : SymbolKind} {declarations : List NodeId} {n : NodeId} :
    b.profile? id = some (kind, declarations) → kind ≠ .namespaceKind → n ∈ declarations →
    declarations = [n] ∧ b.symbolOf? n = some id
  placed {id : SymbolId} {kind : SymbolKind} {declarations : List NodeId} {n m : NodeId}
    {outer : NodeKind} : b.profile? id = some (kind, declarations) → n ∈ declarations →
    kind ≠ .templateParameter → tree.parent? n = some m → tree.kind? m = some outer →
    outer.isScope = true
  undeclared {id : SymbolId} {kind : SymbolKind} : b.profile? id = some (kind, []) →
    ∃ path, kind = .decorator path
  exports {id found : SymbolId} {table : SymbolTable} {name : String} :
    b.exports? id = some table → table.find? name = some found → b.Shared found
  fileExports {file : NodeId} {table : SymbolTable} {name : String} {found : SymbolId} :
    b.fileExports.find? file = some table → table.find? name = some found → b.Shared found
  locals {n : NodeId} {table : SymbolTable} {name : String} {found : SymbolId} :
    b.locals.find? n = some table → table.find? name = some found →
    b.Shared found ∨ ∃ p ∈ tree.templateParameters n, b.symbolOf? p = some found

/-- Consistency depends on the tables, on what symbols are and on the symbols of nodes. -/
theorem Consistent.congr (h : Consistent tree b) (hprof : ∀ id, b'.profile? id = b.profile? id)
    (hnode : b'.nodeSymbols = b.nodeSymbols)
    (hexp : ∀ {id found : SymbolId} {table : SymbolTable} {name : String},
      b'.exports? id = some table → table.find? name = some found → b.Shared found)
    (hfileExp : ∀ {file : NodeId} {table : SymbolTable} {name : String} {found : SymbolId},
      b'.fileExports.find? file = some table → table.find? name = some found → b.Shared found)
    (hlocals : ∀ {n : NodeId} {table : SymbolTable} {name : String} {found : SymbolId},
      b'.locals.find? n = some table → table.find? name = some found →
      b.Shared found ∨ ∃ p ∈ tree.templateParameters n, b.symbolOf? p = some found) :
    Consistent tree b' := by
  have hshared : ∀ id, b'.Shared id ↔ b.Shared id := fun id => by rw [Shared, Shared, hprof]
  have hold : ∀ {id i}, b'.profile? id = some i → b.profile? id = some i := (hprof _).symm.trans
  obtain ⟨_⟩ := b
  obtain ⟨_⟩ := b'
  dsimp only at hnode
  subst hnode
  exact {
    declared := fun hn => by
      rw [hprof]
      exact h.declared hn
    kind := fun hid => h.kind (hold hid)
    unique := fun hid => h.unique (hold hid)
    placed := fun hid => h.placed (hold hid)
    undeclared := fun hid => h.undeclared (hold hid)
    exports := fun hid hfound => (hshared _).mpr (hexp hid hfound)
    fileExports := fun hfile hfound => (hshared _).mpr (hfileExp hfile hfound)
    locals := fun hn hfound => (hlocals hn hfound).imp_left (hshared _).mpr }

/-- The second bindings are consistent and share what the first ones share. -/
structure Merged (tree : Tree) (b b' : Bindings) : Prop where
  consistent : Consistent tree b'
  shared : ∀ id, b.Shared id → b'.Shared id

/-- One symbol is new or, if it is a namespace, has more declarations, and no table has new
entries. -/
theorem Consistent.change {kind : SymbolKind} (h : Consistent tree b)
    (hbefore : ∀ old former, b.profile? changed = some (old, former) →
      old = .namespaceKind ∧ kind = .namespaceKind ∧ former ⊆ declarations)
    (hprof : ∀ id, b'.profile? id =
      if id = changed then some (kind, declarations) else b.profile? id)
    (hsymOf : ∀ n, b'.symbolOf? n = b.symbolOf? n ∨
      n ∈ declarations ∧ b.symbolOf? n = none ∧ b'.symbolOf? n = some changed)
    (hkind : ∀ n ∈ declarations,
      ∃ nodeKind, tree.kind? n = some nodeKind ∧ nodeKind.symbolKind? = some kind)
    (hunique : kind ≠ .namespaceKind → ∀ n ∈ declarations,
      declarations = [n] ∧ b'.symbolOf? n = some changed)
    (hplaced : kind ≠ .templateParameter → ∀ n ∈ declarations, ∀ m outer,
      tree.parent? n = some m → tree.kind? m = some outer → outer.isScope = true)
    (hundecl : declarations = [] → ∃ path, kind = .decorator path)
    (hexp : ∀ id table, b'.exports? id = some table → table = .empty ∨ b.exports? id = some table)
    (hfileExp : b'.fileExports = b.fileExports) (hlocals : b'.locals = b.locals) :
    Merged tree b b' := by
  have hnow : b'.profile? changed = some (kind, declarations) := by rw [hprof, if_pos rfl]
  have hshared : ∀ id, b.Shared id → b'.Shared id := by
    rintro id ⟨old, former, hid, hnot⟩
    by_cases heq : id = changed
    · obtain ⟨-, rfl, -⟩ := hbefore old former (heq ▸ hid)
      exact ⟨_, _, heq ▸ hnow, (by simp)⟩
    · exact ⟨old, former, by rw [hprof, if_neg heq, hid], hnot⟩
  have hnode : ∀ {n id}, b.symbolOf? n = some id → b'.symbolOf? n = some id := by
    intro n id hn
    rcases hsymOf n with heq | ⟨-, hnone, -⟩
    · rw [heq, hn]
    · simp [hnone] at hn
  refine ⟨⟨?_, ?_, ?_, ?_, ?_, ?_, ?_, ?_⟩, hshared⟩
  · intro n id hn
    rcases hsymOf n with heq | ⟨hmem, -, hid⟩
    · obtain ⟨old, former, hid, hmem⟩ := h.declared (heq ▸ hn)
      by_cases heq : id = changed
      · exact ⟨kind, declarations, heq ▸ hnow, (hbefore old former (heq ▸ hid)).2.2 hmem⟩
      · exact ⟨old, former, by rw [hprof, if_neg heq, hid], hmem⟩
    · obtain rfl : id = changed := mem_unique hn hid
      exact ⟨kind, declarations, hnow, hmem⟩
  · intro id kind' declarations' n hid hn
    rw [hprof] at hid
    split at hid
    · cases hid
      exact hkind n hn
    · exact h.kind hid hn
  · intro id kind' declarations' n hid hnot hn
    rw [hprof] at hid
    split at hid
    next heq =>
      cases hid
      exact heq ▸ hunique hnot n hn
    · obtain ⟨hsingle, hnid⟩ := h.unique hid hnot hn
      exact ⟨hsingle, hnode hnid⟩
  · intro id kind' declarations' n m outer hid hn hnot hm houter
    rw [hprof] at hid
    split at hid
    · cases hid
      exact hplaced hnot n hn m outer hm houter
    · exact h.placed hid hn hnot hm houter
  · intro id kind' hid
    rw [hprof] at hid
    split at hid
    · obtain ⟨rfl, hnil⟩ := Prod.mk.inj (some.inj hid)
      exact hundecl hnil
    · exact h.undeclared hid
  · intro id found table name hid hfound
    rcases hexp id table hid with rfl | hid
    · simp [SymbolTable.find?, SymbolTable.empty] at hfound
    · exact hshared _ (h.exports hid hfound)
  · intro file table name found hfile hfound
    exact hshared _ (h.fileExports (hfileExp ▸ hfile) hfound)
  · intro n table name found hn hfound
    rcases h.locals (hlocals ▸ hn) hfound with hfound | ⟨p, hp, hfound⟩
    · exact .inl (hshared _ hfound)
    · exact .inr ⟨p, hp, hnode hfound⟩

/-! ### Changing tables -/

theorem profile?_modifyExports (id other : SymbolId) (f : SymbolTable → SymbolTable) :
    (b.modifyExports id f).profile? other = b.profile? other := by
  rw [profile?, profile?, modifyExports, modifySymbol, symbol?, Table.get?_modify]
  split
  · simp [symbol?, Function.comp_def]
  · rfl

theorem exports?_modifySymbol {f : Symbol → Symbol} (hf : ∀ s, (f s).exports = s.exports)
    (id other : SymbolId) : (b.modifySymbol id f).exports? other = b.exports? other := by
  simp only [exports?, symbol?, modifySymbol, Table.get?_modify]
  split
  · cases b.symbols.get? other with
    | none => rfl
    | some symbol => simp [hf]
  · rfl

theorem exports?_modifyExports_eq (id other : SymbolId) (f : SymbolTable → SymbolTable) :
    (b.modifyExports id f).exports? other =
      if other = id then (b.exports? other).map f else b.exports? other := by
  simp only [exports?, symbol?, modifyExports, modifySymbol, Table.get?_modify]
  split
  · cases b.symbols.get? other <;> rfl
  · rfl

theorem Consistent.modifyExports (h : Consistent tree b)
    (hf : ∀ table name found, (f table).find? name = some found →
      table.find? name = some found ∨ b.Shared found) :
    Consistent tree (b.modifyExports id f) := by
  refine h.congr (fun other => profile?_modifyExports id other f) rfl ?_ h.fileExports h.locals
  intro other found table name hother hfound
  rw [exports?_modifyExports_eq] at hother
  split at hother
  · obtain ⟨old, hold, rfl⟩ := map_eq_some_iff.mp hother
    exact (hf old name found hfound).elim (h.exports hold) fun hfound => hfound
  · exact h.exports hother hfound

theorem Consistent.modifyLocals (h : Consistent tree b)
    (hf : ∀ table name found, (f table).find? name = some found →
      table.find? name = some found ∨ b.Shared found ∨
        ∃ p ∈ tree.templateParameters n, b.symbolOf? p = some found) :
    Consistent tree (b.modifyLocals n f) := by
  refine h.congr (fun _ => rfl) rfl h.exports h.fileExports ?_
  intro m table name found hm hfound
  simp only [Bindings.modifyLocals, find?_insert] at hm
  split at hm
  next heq =>
    cases hm
    rcases hf _ name found hfound with hfound | hfound
    · cases hn : b.locals.find? n with
      | none => simp [hn, SymbolTable.find?, SymbolTable.empty] at hfound
      | some old => exact h.locals (heq ▸ hn) (by simpa [hn] using hfound)
    · exact heq ▸ hfound
  · exact h.locals hm hfound

/-- Adding empty tables and what is not about symbols keeps bindings consistent. -/
theorem Consistent.openLocals (h : Consistent tree b) :
    Consistent tree (b.openLocals n) := by
  refine h.congr (fun _ => rfl) rfl h.exports h.fileExports ?_
  intro m table name found hm hfound
  simp only [Bindings.openLocals, OrderedMap.insertIfNew] at hm
  split at hm
  · exact h.locals hm hfound
  · rw [find?_insert] at hm
    split at hm
    · cases hm
      simp [SymbolTable.find?, SymbolTable.empty] at hfound
    · exact h.locals hm hfound

/-- A claim of a shared symbol is consistent. -/
theorem Consistent.claim {scope : BindingScope} {symbol : SymbolId}
    (h : Consistent tree b) (hshared : b.Shared symbol) :
    Consistent tree (b.claim scope name symbol) := by
  cases scope with
  | file file =>
    refine h.congr (fun _ => rfl) rfl h.exports ?_ h.locals
    intro other table key found hother hfound
    simp only [Bindings.claim, find?_insert] at hother
    split at hother
    next heq =>
      cases hother
      rcases SymbolTable.find?_set hfound with rfl | hfound
      · exact hshared
      · cases hfile : b.fileExports.find? file with
        | none => simp [hfile, SymbolTable.find?, SymbolTable.empty] at hfound
        | some old => exact h.fileExports hfile (by simpa [hfile] using hfound)
    · exact h.fileExports hother hfound
  | namespaceScope owner =>
    refine h.modifyExports fun table key found hfound => ?_
    rcases SymbolTable.find?_set hfound with rfl | hfound
    · exact .inr hshared
    · exact .inl hfound

/-! ### Declarations and templates -/

/-- Everything but a namespace is declared by one node. -/
theorem Consistent.eq_of_symbolOf (h : Consistent tree b) {m : NodeId}
    (hn : b.symbolOf? n = some id) (hkind : tree.kind? n = some kind)
    (hother : kind.symbolKind? ≠ some .namespaceKind) (hm : b.symbolOf? m = some id) : m = n := by
  obtain ⟨symbolKind, declarations, hprof, hmem⟩ := h.declared hn
  obtain ⟨_, declarations', hprof', hmem'⟩ := h.declared hm
  rw [hprof, some.injEq, Prod.mk.injEq] at hprof'
  obtain ⟨rfl, rfl⟩ := hprof'
  obtain ⟨nodeKind, hnKind, hsymKind⟩ := h.kind hprof hmem
  rw [hkind, some.injEq] at hnKind
  have hne : symbolKind ≠ .namespaceKind := fun heq => hother (by rw [hnKind, hsymKind, heq])
  obtain ⟨hsingle, -⟩ := h.unique hprof hne hmem
  rwa [hsingle, List.mem_singleton] at hmem'

/-- A declaration without template parameters is in no template. -/
theorem Consistent.templateDeclarationOf (h : Consistent tree b) (hwf : tree.WellFormed)
    (hn : b.symbolOf? n = some id)
    (hrole : ∀ kind, tree.kind? n = some kind → kind.symbolKind? ≠ some .templateParameter)
    (hparams : tree.templateParameters n = []) : tree.templateDeclarationOf? n = none := by
  obtain ⟨symbolKind, declarations, hprof, hmem⟩ := h.declared hn
  obtain ⟨nodeKind, hnKind, hsymKind⟩ := h.kind hprof hmem
  have hne : symbolKind ≠ .templateParameter := fun heq =>
    hrole nodeKind hnKind (by rw [hsymKind, heq])
  cases hpar : tree.parent? n with
  | none =>
    simp [Tree.templateDeclarationOf?, Tree.selfAndAncestors, Tree.WellFormed.ancestors_of_root hpar,
      hparams]
  | some m =>
    obtain ⟨outer, houter, -⟩ := hwf.exists_kind_parent hpar
    have hscope := h.placed hprof hmem hne hpar houter
    rw [hwf.templateDeclarationOf_parent hpar hparams]
    exact hwf.templateDeclarationOf_scope houter hscope

end Bindings

end ApiSchema
