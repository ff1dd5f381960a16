import ApiSchema.Syntax.Node
import ApiSchema.Text.DottedPath
import ApiSchema.Text.Interner

/-!
# The syntax tree

The tree holds the nodes of all files. Children are added before their parent, so that a node and
its descendants have consecutive identifiers, and adding a node records it as the parent of its
children. The tree starts with the global namespace, which declares the intrinsic types.
-/

namespace ApiSchema

/-- The types that every program can refer to. -/
def intrinsicNames : List String :=
  ["bytes", "string", "int8", "int16", "int32", "int64", "uint8", "uint16", "uint32", "uint64",
    "safeint", "float32", "float64", "boolean", "null", "plainDate", "plainTime", "zonedDateTime",
    "duration"]

/-- The nodes of all files. -/
structure Tree where
  nodes : Table NodeId Node
  /-- The file nodes, in the order in which the files were added. -/
  files : List NodeId
  deriving DecidableEq

namespace Tree

/-- The namespace that holds the intrinsic types and everything declared outside a namespace. -/
def globalNamespace : NodeId := ⟨intrinsicNames.length⟩

/-- The number of nodes, which is also the next free position. -/
def size (tree : Tree) : Nat := tree.nodes.size

/-- Records `parent` as the parent of a node. -/
def adopt (parent : NodeId) (nodes : Table NodeId Node) (child : NodeId) : Table NodeId Node :=
  nodes.modify child fun node => { node with parent := some parent }

/-- Adds a node that began at position `start`, and makes it the parent of its children. -/
def addNode (start : Nat) (kind : NodeKind) : StateM Tree NodeId := fun tree =>
  let id := tree.nodes.nextId
  let nodes := kind.children.foldl (adopt id) tree.nodes
  (id, { tree with nodes := nodes.push ⟨kind, ⟨start, tree.size + 1⟩, none⟩ })

/-- Adds a namespace without a name that declares intrinsic types. -/
def addIntrinsics (names : List String) : StateM Tree NodeId := do
  let statements ← names.mapM fun name => do
    addNode (← get).size (.intrinsicStatement name)
  addNode 0 (.namespaceStatement ⟨"", statements, false, []⟩)

/-- The tree of a program without files. -/
def initial : Tree := ((addIntrinsics intrinsicNames).run ⟨Table.empty, []⟩).2

instance : Inhabited Tree := ⟨initial⟩

/-! ### Looking at nodes -/

/-- The node with an identifier. -/
def node? (tree : Tree) (id : NodeId) : Option Node := tree.nodes.get? id

/-- What a node stands for. -/
def kind? (tree : Tree) (id : NodeId) : Option NodeKind := (tree.node? id).map Node.kind

/-- The parent of a node. -/
def parent? (tree : Tree) (id : NodeId) : Option NodeId := (tree.node? id).bind Node.parent

/-- The children of a node in source order. -/
def children (tree : Tree) (id : NodeId) : List NodeId :=
  ((tree.kind? id).map NodeKind.children).getD []

/-- The name that a node declares. -/
def declaredName? (tree : Tree) (id : NodeId) : Option String :=
  (tree.kind? id).bind NodeKind.declaredName?

/-- The template parameters that a node declares. -/
def templateParameters (tree : Tree) (id : NodeId) : List NodeId :=
  ((tree.kind? id).map NodeKind.templateParameters).getD []

/-- The decorator expressions on a node. -/
def decorators (tree : Tree) (id : NodeId) : List NodeId :=
  ((tree.kind? id).map NodeKind.decorators).getD []

/-- Whether a node is a namespace statement. -/
def isNamespace (tree : Tree) (id : NodeId) : Bool := (tree.kind? id).any NodeKind.isNamespace

/-- Whether a node is a file. -/
def isSourceFile (tree : Tree) (id : NodeId) : Bool := (tree.kind? id).any NodeKind.isSourceFile

/-- At most `depth` of the nodes around a node, innermost first. -/
def ancestorsWithin (tree : Tree) : Nat → NodeId → List NodeId
  | 0, _ => []
  | depth + 1, id =>
    match tree.parent? id with
    | none => []
    | some parent => parent :: tree.ancestorsWithin depth parent

/-- The nodes around a node, innermost first. There are fewer of them than nodes in the tree. -/
def ancestors (tree : Tree) (id : NodeId) : List NodeId := tree.ancestorsWithin tree.size id

/-- The node itself, then the nodes around it, innermost first. -/
def selfAndAncestors (tree : Tree) (id : NodeId) : List NodeId := id :: tree.ancestors id

/-- A node and its descendants down to `depth` levels, each before its children. -/
def walkWithin (tree : Tree) : Nat → NodeId → List NodeId
  | 0, id => [id]
  | depth + 1, id => id :: (tree.children id).flatMap (tree.walkWithin depth)

/-- A node and all its descendants, each before its children. -/
def walk (tree : Tree) (id : NodeId) : List NodeId := tree.walkWithin tree.size id

/-- The file around a node. -/
def sourceFileOf? (tree : Tree) (id : NodeId) : Option NodeId :=
  (tree.selfAndAncestors id).find? tree.isSourceFile

/-- The name of the file around a node. -/
def fileNameOf? (tree : Tree) (id : NodeId) : Option String :=
  match (tree.sourceFileOf? id).bind tree.kind? with
  | some (.sourceFile fileName _) => some fileName
  | _ => none

/-- The declarations with a name, in source order. -/
def findDeclarations (tree : Tree) (name : String) : List NodeId :=
  (tree.nodes.toList.filter fun row =>
    row.2.kind.isDeclaration && row.2.kind.declaredName? = some name).map Prod.fst

/-- The first declaration with a name. -/
def findDeclaration? (tree : Tree) (name : String) : Option NodeId :=
  (tree.findDeclarations name).head?

/-- The names of a namespace statement and of the namespace statements around it, outermost
first. -/
def namespacePath (tree : Tree) (id : NodeId) : List String :=
  ((tree.selfAndAncestors id).filterMap fun scope =>
    match tree.kind? scope with
    | some (.namespaceStatement parts) => if scope = globalNamespace then none else some parts.name
    | _ => none).reverse

/-- The first namespace statement whose path of names is written as `path`. -/
def findNamespace? (tree : Tree) (path : String) : Option NodeId :=
  tree.nodes.ids.find? fun id =>
    tree.isNamespace id && id ≠ globalNamespace && DottedPath.join (tree.namespacePath id) = path

/-- The names that occur in the tree. -/
def names (tree : Tree) : Interner :=
  Interner.empty.internAll (tree.nodes.rows.toList.filterMap fun node => node.kind.name?)

end Tree

end ApiSchema
