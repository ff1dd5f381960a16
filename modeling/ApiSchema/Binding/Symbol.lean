import ApiSchema.Binding.SymbolTable

/-!
# Symbols

A symbol is what a name stands for: a declared type, which has one or more declaring nodes, or a
decorator supplied by a library, which has none. Only a namespace has exports.
-/

namespace ApiSchema

/-- What kind of thing a name stands for. -/
inductive SymbolKind where
  | model
  | namespaceKind
  | operation
  | enumKind
  | interfaceKind
  | aliasKind
  | templateParameter
  | intrinsic
  /-- A decorator, known by the dotted path under which it was declared. -/
  | decorator (path : String)
  deriving DecidableEq, Inhabited

namespace SymbolKind

/-- The bit that stands for a kind in a set of flags. -/
def flag : SymbolKind → Nat
  | model => 1
  | namespaceKind => 2
  | operation => 4
  | enumKind => 8
  | interfaceKind => 16
  | aliasKind => 32
  | templateParameter => 64
  | intrinsic => 128
  | decorator _ => 256

/-- The kinds whose declarations may have template parameters. -/
def isTemplatable : SymbolKind → Bool
  | model | interfaceKind | aliasKind => true
  | _ => false

end SymbolKind

/-- What a name stands for. -/
structure Symbol where
  name : String
  kind : SymbolKind
  /-- The nodes that declare the symbol; only a namespace can have several. -/
  declarations : List NodeId
  /-- The names declared in a namespace. -/
  exports : Option SymbolTable
  /-- The namespace that the symbol belongs to. -/
  parent : Option SymbolId
  deriving DecidableEq

namespace Symbol

/-- A symbol as it is created; a namespace starts with no exports. -/
def make (name : String) (kind : SymbolKind) (declarations : List NodeId)
    (parent : Option SymbolId) : Symbol :=
  let exports := match kind with
    | .namespaceKind => some SymbolTable.empty
    | _ => none
  ⟨name, kind, declarations, exports, parent⟩

/-- Whether the symbol is a namespace. -/
def isNamespace (symbol : Symbol) : Bool := symbol.kind = .namespaceKind

/-- The path of a decorator. -/
def decoratorPath? (symbol : Symbol) : Option String :=
  match symbol.kind with
  | .decorator path => some path
  | _ => none

/-- Whether the symbol is a decorator. -/
def isDecorator (symbol : Symbol) : Bool := symbol.decoratorPath?.isSome

/-- The first declaration of a type symbol. -/
def node? (symbol : Symbol) : Option NodeId :=
  match symbol.kind with
  | .decorator _ => none
  | _ => symbol.declarations.head?

end Symbol

end ApiSchema
