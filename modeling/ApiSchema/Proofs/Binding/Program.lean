import ApiSchema.Proofs.Binding.Consistent

/-!
# Changes that keep bindings consistent

What the binder does to the bindings at a time: it declares a symbol, opens a namespace again, gives
a file a table of exports, or declares a decorator.
-/

namespace ApiSchema.Bindings

open OrderedMap List Table

variable {tree : Tree} {b b' : Bindings} {symbol : Symbol} {id : SymbolId} {table : SymbolTable}
  {kind : SymbolKind} {declarations : List NodeId} {node n : NodeId}

/-! ### Running the binder -/

theorem state_bind {α β : Type} (m : StateM Bindings α) (f : α → StateM Bindings β) :
    (m >>= f) b = f (m b).1 (m b).2 := rfl

theorem state_get : (get : StateM Bindings Bindings) b = (b, b) := rfl

theorem state_modify (f : Bindings → Bindings) :
    (modify f : StateM Bindings PUnit) b = (⟨⟩, f b) := rfl

/-! ### Declaring a symbol -/

theorem profile?_push (symbol : Symbol) (id : SymbolId) :
    ({ b with symbols := b.symbols.push symbol } : Bindings).profile? id =
      if id = b.symbols.nextId then some (symbol.kind, symbol.declarations)
      else b.profile? id := by
  simp only [profile?, symbol?, get?_push, ← eq_nextId_iff]
  split <;> rfl

theorem profile?_nextId : b.profile? b.symbols.nextId = none := by
  simp [profile?, symbol?]

theorem exports?_push_eq (symbol : Symbol) (id : SymbolId) :
    ({ b with symbols := b.symbols.push symbol } : Bindings).exports? id =
      if id = b.symbols.nextId then symbol.exports else b.exports? id := by
  simp only [exports?, symbol?, get?_push, ← eq_nextId_iff]
  split <;> rfl

/-- A new symbol has no names yet. -/
theorem exports?_push {name : String} {parent : Option SymbolId}
    (h : ({ b with symbols := b.symbols.push (.make name kind declarations parent) } :
      Bindings).exports? id = some table) :
    table = .empty ∨ b.exports? id = some table := by
  rw [exports?_push_eq] at h
  split at h
  · exact .inl (by cases kind <;> simp_all [Symbol.make])
  · exact .inr h

/-- A new symbol with one declaration, which had no symbol before. -/
theorem Consistent.addDeclared {nodeKind : NodeKind} (h : Consistent tree b) (name : String)
    (parent : Option SymbolId) (hfresh : b.symbolOf? node = none)
    (hkind : tree.kind? node = some nodeKind) (hsym : nodeKind.symbolKind? = some kind)
    (hplaced : kind ≠ .templateParameter → ∀ m outer, tree.parent? node = some m →
      tree.kind? m = some outer → outer.isScope = true) :
    Consistent tree (({ b with
      symbols := b.symbols.push (.make name kind [node] parent) } : Bindings).recordNode node
        b.symbols.nextId) := by
  have hnode : ∀ n, (b.nodeSymbols.insert node b.symbols.nextId).find? n =
      if n = node then some b.symbols.nextId else b.symbolOf? n :=
    fun n => find?_insert _ _ _ _
  have hprof : ∀ id, (({ b with
      symbols := b.symbols.push (.make name kind [node] parent) } : Bindings).recordNode node
        b.symbols.nextId).profile? id =
      if id = b.symbols.nextId then some (kind, [node]) else b.profile? id := profile?_push _
  refine (h.change (by simp [profile?_nextId]) hprof ?_ ?_ ?_ ?_ (by simp)
    (fun id table => exports?_push) rfl rfl).consistent
  · intro n
    rw [symbolOf?, recordNode, hnode]
    split
    next heq =>
      exact .inr ⟨by simp [heq], heq ▸ hfresh, rfl⟩
    · exact .inl rfl
  · intro n hn
    obtain rfl := mem_singleton.mp hn
    exact ⟨nodeKind, hkind, hsym⟩
  · intro _ n hn
    obtain rfl := mem_singleton.mp hn
    exact ⟨rfl, by rw [symbolOf?, recordNode, hnode, if_pos rfl]⟩
  · intro hnot n hn
    obtain rfl := mem_singleton.mp hn
    exact hplaced hnot

theorem symbolOf?_recordNode (node n : NodeId) (symbol : SymbolId) :
    (b.recordNode node symbol).symbolOf? n = if n = node then some symbol else b.symbolOf? n :=
  find?_insert _ _ _ _

theorem profile?_modifyDeclarations (h : b.symbol? id = some symbol) (f : List NodeId → List NodeId)
    (other : SymbolId) :
    (b.modifySymbol id fun symbol =>
      { symbol with declarations := f symbol.declarations }).profile? other =
      if other = id then some (symbol.kind, f symbol.declarations) else b.profile? other := by
  simp only [profile?, symbol?, modifySymbol, get?_modify]
  split
  next heq =>
    simp [heq, show b.symbols.get? id = some symbol from h]
  · rfl

theorem exists_namespace_symbol (h : b.isNamespace id = true) :
    ∃ symbol, b.symbol? id = some symbol ∧ symbol.kind = .namespaceKind := by
  simpa [isNamespace, Option.any_eq_true, Symbol.isNamespace] using h

/-- A namespace that is opened again in the same scope. -/
theorem Consistent.reopen {existing : SymbolId} {parts : NamespaceNode} (h : Consistent tree b)
    (hexist : b.isNamespace existing = true) (hfresh : b.symbolOf? node = none)
    (hnode : tree.kind? node = some (.namespaceStatement parts))
    (hplaced : ∀ m outer, tree.parent? node = some m → tree.kind? m = some outer →
      outer.isScope = true) :
    Consistent tree ((b.modifySymbol existing fun symbol =>
      { symbol with declarations := symbol.declarations ++ [node] }).recordNode node existing) := by
  obtain ⟨symbol, hsym, hkind⟩ := exists_namespace_symbol hexist
  have hid : b.profile? existing = some (.namespaceKind, symbol.declarations) := by
    simp [profile?, hsym, hkind]
  have hprof := profile?_modifyDeclarations hsym (· ++ [node])
  rw [hkind] at hprof
  refine Merged.consistent (h.change (fun _ _ hold => ?_) hprof ?_ ?_ (by simp) ?_ (by simp)
    (fun id table htable => .inr ?_) rfl rfl)
  · obtain ⟨rfl, rfl⟩ := Prod.mk.inj (Option.mem_unique hid hold)
    exact ⟨rfl, rfl, subset_append_left _ _⟩
  · intro n
    rw [symbolOf?_recordNode]
    split
    next heq =>
      exact .inr ⟨by simp [heq], heq ▸ hfresh, rfl⟩
    · exact .inl rfl
  · intro n hn
    rcases mem_append.mp hn with hn | hn
    · exact h.kind hid hn
    · exact ⟨_, mem_singleton.mp hn ▸ hnode, rfl⟩
  · intro _ n hn
    rcases mem_append.mp hn with hn | hn
    · exact fun m outer => h.placed hid hn (by simp)
    · exact mem_singleton.mp hn ▸ hplaced
  · exact (exports?_modifySymbol (by exact fun _ => rfl) _ _).symm.trans htable

/-! ### Files, decorators and the global namespace -/

/-- Giving a file a table of exports keeps bindings consistent. -/
theorem Consistent.openFile (h : Consistent tree b) (file : NodeId) :
    Consistent tree { b with fileExports := b.fileExports.insertIfNew file .empty } := by
  refine h.congr (fun _ => rfl) rfl h.exports ?_ h.locals
  intro other table name found hother hfound
  simp only [insertIfNew] at hother
  split at hother
  · exact h.fileExports hother hfound
  · rw [find?_insert] at hother
    split at hother
    · cases hother
      simp [SymbolTable.find?, SymbolTable.empty] at hfound
    · exact h.fileExports hother hfound

theorem empty_consistent : Consistent tree empty := by
  constructor <;> simp [symbolOf?, profile?, exports?, symbol?, empty, Table.get?, Table.empty]

/-- The bindings of the global namespace alone. -/
def global : Bindings :=
  ({ empty with
    symbols := empty.symbols.push (.make "" .namespaceKind [Tree.globalNamespace] none) } :
      Bindings).recordNode Tree.globalNamespace globalSymbol

theorem global_consistent (hc : tree.Complete) : Consistent tree global := by
  obtain ⟨hroot, parts, hkind⟩ := hc.global_root
  refine empty_consistent.addDeclared "" none rfl hkind rfl fun _ m outer hm => ?_
  simp [hroot] at hm

theorem symbolOf?_global (h : n ≠ Tree.globalNamespace) : global.symbolOf? n = none :=
  (symbolOf?_recordNode _ _ _).trans (if_neg h)

/-- A new symbol for a decorator, in the table of a namespace. -/
def withDecorator (b : Bindings) (owner : SymbolId) (path : String) : Bindings :=
  let key := decoratorKey (DottedPath.lastSegment path)
  ({ b with symbols := b.symbols.push (.make key (.decorator path) [] (some owner)) } :
    Bindings).modifyExports owner fun table => table.set key b.symbols.nextId

/-- Declaring a decorator keeps bindings consistent. -/
theorem Consistent.withDecorator (h : Consistent tree b) (owner : SymbolId) (path : String) :
    Consistent tree (b.withDecorator owner path) := by
  have hprof : ∀ id, ({ b with symbols := b.symbols.push (.make
      (decoratorKey (DottedPath.lastSegment path)) (.decorator path) [] (some owner)) } :
        Bindings).profile? id =
      if id = b.symbols.nextId then some (.decorator path, []) else b.profile? id :=
    profile?_push _
  have hadded := h.change (by simp [profile?_nextId]) hprof (fun _ => .inl rfl) (by simp)
    (by simp) (by simp) (fun _ => ⟨path, rfl⟩) (fun id table => exports?_push) rfl rfl
  refine hadded.consistent.modifyExports fun table name found hfound => ?_
  rcases SymbolTable.find?_set hfound with rfl | hfound
  · exact .inr ⟨.decorator path, [], (hprof _).trans (if_pos rfl), (by simp)⟩
  · exact .inl hfound

/-- The bindings of a tree, with decorators declared by their paths. -/
def declaring (tree : Tree) (paths : List String) : Bindings :=
  paths.foldl (fun b path => ((declareDecorator tree path).run b).2) (ofTree tree)

/-- Declaring decorators gives no symbols to nodes. -/
theorem symbolOf?_declaring (tree : Tree) (paths paths' : List String) (n : NodeId) :
    (declaring tree paths).symbolOf? n = (declaring tree paths').symbolOf? n := by
  have hdecl : ∀ (b : Bindings) path,
      ((declareDecorator tree path).run b).2.symbolOf? n = b.symbolOf? n := by
    intro b path
    simp only [declareDecorator, StateT.run, state_bind, state_get]
    cases b.decoratorOwner? tree path <;> rfl
  have hsame : ∀ (paths : List String) (b : Bindings),
      (paths.foldl (fun b path => ((declareDecorator tree path).run b).2) b).symbolOf? n =
        b.symbolOf? n := by
    intro paths
    induction paths with
    | nil => exact fun _ => rfl
    | cons path paths ih => exact fun b => (ih _).trans (hdecl b path)
  exact (hsame paths _).trans (hsame paths' _).symm

end ApiSchema.Bindings
