import ApiSchema.Proofs.Checking.Probing
import ApiSchema.Proofs.Memoization.UniqueTypes

/-!
# One type for each literal

The types of literals are kept twice, in the type table and in a map that is asked before one is
added. The two agree in all states that a session passes through, so that a literal has one type
wherever it is written. Template arguments that are equal literals are then the same types, and
stand for the same instance of a model or an interface. An alias that leads back to itself may stand
for an error in the midst of its own resolution, and for something else later.
-/

namespace ApiSchema.Checking

variable {s : State} {types : TypeTable} {literal : Literal} {arguments arguments' : List TypeId}
  {t t' : TypeId}

/-- The expression that a literal is written as. -/
def Literal.expression : Literal → NodeKind
  | string value => .stringLiteral value
  | number value => .numericLiteral value
  | boolean value => .booleanLiteral value

/-- Argument lists that differ at most in where their literals are written. -/
def SameArguments (types : TypeTable) : List TypeId → List TypeId → Prop :=
  List.Forall₂ fun a b => a = b ∨ ∃ literal : Literal,
    types.shape? a = some literal.shape ∧ types.shape? b = some literal.shape

namespace State.Coherent

/-- A literal keeps its type while the table grows. -/
theorem literal_unique_before (h : s.Coherent) (hgrows : types.Grows s.types)
    (ht : types.shape? t = some literal.shape) (ht' : types.shape? t' = some literal.shape) :
    t = t' := by
  have hkept : ∀ {u}, types.shape? u = some literal.shape →
      s.types.shape? u = some literal.shape := fun hu => by
    obtain ⟨shape, hshape, hgrown⟩ := hgrows.shape hu
    rwa [hgrown.literal_iff.mpr rfl] at hshape
  exact Option.mem_unique (h.literals.mpr (hkept ht)) (h.literals.mpr (hkept ht'))

theorem sameArguments (h : s.Coherent) (hgrows : types.Grows s.types)
    (hsame : SameArguments types arguments arguments') : arguments = arguments' := by
  induction hsame with
  | nil => rfl
  | cons hfirst _ ih =>
    obtain rfl | ⟨literal, ha, hb⟩ := hfirst
    · rw [ih]
    · rw [ih, h.literal_unique_before hgrows ha hb]

/-- The check of a literal comes to its type, which is added if there is none. -/
theorem checkLiteral (h : s.Coherent) (env : Environment) (node : NodeId) (literal : Literal) :
    ∃ t s', Checking.checkLiteral node literal env s = some (t, s') ∧
      ∀ u, s'.types.shape? u = some literal.shape ↔ u = t := by
  obtain ⟨t, s', hrun⟩ : ∃ t s', Checking.checkLiteral node literal env s = some (t, s') := by
    cases hfind : s.literalTypes.find? literal <;>
      exact ⟨_, _, by rw [Checking.checkLiteral, get_bind, hfind]; rfl⟩
  obtain ⟨h', -⟩ := checkLiteral_grounded h hrun
  have ht : s'.literalTypes.find? literal = some t := by
    rcases checkLiteral_cases hrun with ⟨rfl, hknown⟩ | ⟨-, rfl, rfl⟩
    · exact hknown
    · simp
  exact ⟨t, s', hrun, fun u => by rw [← h'.literals, ht, Option.some.injEq, eq_comm]⟩

end State.Coherent

/-- The literals are interned. In every state that a session passes through, and in those before it,
types of the same literal are the same, whether it is a text, a number or a truth value. There the
check of a literal has an answer, which is the type of that literal. An instance that is known is
that for all argument lists with the same literals, and between the calls of a session references to
a model or an interface with the same literals stand for the same type. -/
theorem literals_interned {program : Program} {deeper : Check}
    (hframed : Framed program.environment deeper) (hgrounded : Grounded program.environment deeper)
    (h : Passed program deeper s) (hgrows : types.Grows s.types) :
    (∀ (literal : Literal) (t t' : TypeId), types.shape? t = some literal.shape →
      types.shape? t' = some literal.shape → t = t') ∧
    (∀ (literal : Literal) (node : NodeId) (depth : Nat),
      program.tree.kind? node = some literal.expression →
      ∃ t s', checkNode (depth + 1) node program.environment s = some (t, s') ∧
        ∀ u, s'.types.shape? u = some literal.shape ↔ u = t) ∧
    (∀ (check : Check) (symbol : SymbolId) (declaration : NodeId) (arguments arguments' t),
      (s.linksOf symbol).instances.find? arguments = some t →
      SameArguments types arguments arguments' →
      instantiate check symbol declaration arguments' program.environment s = some (t, s)) ∧
    ∀ (symbol : SymbolId) (kind : NodeKind) (r r' : Reference), Reached program s →
      r ∈ s.references → r' ∈ s.references → r'.declaration = r.declaration →
      program.bindings.symbolOf? r.declaration = some symbol →
      program.tree.kind? r.declaration = some kind → kind.isInstantiable = true →
      SameArguments types r.arguments r'.arguments → r.type = r'.type := by
  have hs := h.coherent hframed hgrounded
  refine ⟨fun literal t t' ht ht' => hs.literal_unique_before hgrows ht ht',
    fun literal node depth hkind => ?_,
    fun check symbol declaration arguments arguments' t ht hsame => ?_,
    fun symbol kind r r' hreached hr hr' hsame hbound hkind hinstantiable harguments => ?_⟩
  · obtain ⟨t, s', hrun, ht⟩ := hs.checkLiteral program.environment node literal
    refine ⟨t, s', ?_, ht⟩
    rw [checkNode, checkStep, getTree_bind, show program.environment.tree.kind? node = _ from hkind]
    cases literal <;> exact hrun
  · obtain rfl := hs.sameArguments hgrows hsame
    rw [instantiate, get_bind, ht]
    rfl
  · have hmemoized := hreached.memoized (d := ⟨r.declaration, symbol⟩) hbound
      ⟨kind, hkind, hinstantiable⟩
    have hfirst := hmemoized.references hr rfl
    rw [hs.sameArguments hgrows harguments] at hfirst
    exact Option.mem_unique hfirst (hmemoized.references hr' hsame)

/-- Jars and casks in two files that have labels with the same text. -/
def jars : Program :=
  .ofFiles .default .empty [⟨"pantry", [
    .modelDecl "Label" ["T"] none none [.required "text" "T"] [],
    .model "Jar" [.property "label" false (.reference "Label" [.string "jam"]) none []]]⟩,
    ⟨"cellar", [.model "Cask"
      [.property "label" false (.reference "Label" [.string "jam"]) none []]]⟩]

/-- The labels of jars and of casks are the same model, and the text has one type. -/
theorem literals_interned_jars :
    ∃ s t s', Reached jars s ∧ s.types.shape? ⟨6⟩ = some (.string "jam") ∧
      checkNode 1 ⟨32⟩ jars.environment s = some (t, s') ∧
      (∀ u, s'.types.shape? u = some (.string "jam") ↔ u = t) ∧
      ∃ r ∈ s.references, ∃ r' ∈ s.references, r.node = ⟨27⟩ ∧ r'.node = ⟨33⟩ ∧
        r.type = r'.type := by
  obtain ⟨answer, s, hrun, hjam, hjar, hcask⟩ := @exists_run jars 12
    (fun s => s.types.shape? ⟨6⟩ = some (.string "jam") ∧
      (⟨⟨27⟩, ⟨24⟩, [⟨6⟩], ⟨7⟩⟩ : Reference) ∈ s.references ∧
      (⟨⟨33⟩, ⟨24⟩, [⟨6⟩], ⟨7⟩⟩ : Reference) ∈ s.references) _ (by decide +kernel)
  have hreached : Reached jars s := .of_run hrun
  have hwf := hreached.wellFormed
  obtain ⟨-, hliteral, -, hreferences⟩ := literals_interned (checkNode_framed hwf 0)
    (checkNode_grounded hwf 0) (.between hreached) (.refl _)
  obtain ⟨t, s', hchecked, ht⟩ := hliteral (.string "jam") ⟨32⟩ 0 (by decide +kernel)
  obtain ⟨kind, hkind, hinstantiable⟩ := (Option.any_eq_true NodeKind.isInstantiable
    (jars.tree.kind? ⟨24⟩)).mp (by decide +kernel)
  refine ⟨s, t, s', hreached, hjam, hchecked, ht, _, hjar, _, hcask, rfl, rfl, ?_⟩
  exact hreferences ⟨20⟩ kind _ _ hreached hjar hcask rfl (by decide +kernel) hkind hinstantiable
    (.cons (.inr ⟨.string "jam", hjam, hjam⟩) .nil)

/-- A pot is another pot and a shelf, and there are pots on shelves and on racks:
`alias Pot<T> = [Pot<"jam">, Shelf]`, `model Shelf { left: Pot<"jam"> }` and
`model Rack { right: Pot<"jam"> }`. -/
def pots : Program :=
  .ofFiles .default .empty [⟨"pots", [
    .aliasDecl "Pot" ["T"] (.tuple [.reference "Pot" [.string "jam"], .reference "Shelf" []]),
    .model "Shelf" [.property "left" false (.reference "Pot" [.string "jam"]) none []],
    .model "Rack" [.property "right" false (.reference "Pot" [.string "jam"]) none []]]⟩]

/-- References to an alias with the same literal may stand for different types: while pots of jam
are resolved those on shelves are taken for errors, and later those on racks are what pots stand
for. -/
theorem literals_split_pots :
    ∃ s, Reached pots s ∧ (∃ parts, pots.tree.kind? ⟨27⟩ = some (.aliasStatement parts)) ∧
      s.types.shape? ⟨3⟩ = some (.string "jam") ∧
      ∃ r ∈ s.references, ∃ r' ∈ s.references, r.node = ⟨30⟩ ∧ r'.node = ⟨35⟩ ∧
        r.declaration = ⟨27⟩ ∧ r'.declaration = ⟨27⟩ ∧ r.arguments = [⟨3⟩] ∧ r'.arguments = [⟨3⟩] ∧
        r.type ≠ r'.type := by
  obtain ⟨answer, s, hrun, hjam, hshelf, hrack⟩ := @exists_run pots 12
    (fun s => s.types.shape? ⟨3⟩ = some (.string "jam") ∧
      (⟨⟨30⟩, ⟨27⟩, [⟨3⟩], ⟨0⟩⟩ : Reference) ∈ s.references ∧
      (⟨⟨35⟩, ⟨27⟩, [⟨3⟩], ⟨6⟩⟩ : Reference) ∈ s.references) _ (by decide +kernel)
  exact ⟨s, .of_run hrun, ⟨⟨"Pot", [⟨20⟩], ⟨26⟩⟩, by decide +kernel⟩, hjam, _, hshelf, _, hrack, rfl,
    rfl, rfl, rfl, rfl, rfl, by simp⟩

end ApiSchema.Checking
