import ApiSchema.Json.Skip

/-!
# Reading values of a known form

A value of the wrong form is read to its end, as far as it has no parts, before it is refused, so
that a text which is not JSON is reported as such. A record can be written with names, where unknown
names are passed over and no known one may come twice, or as a list of its fields in order; fields
may be missing either way.
-/

namespace ApiSchema.Json

/-- Refuses the value that comes next because of its form. -/
def refuse {α : Type} : Scan α := do
  let c ← peek
  if c = '[' ∨ c = '\x7b' then
    throw .mismatched
  else
    skipOne
    if c = 'n' then expect ['u', 'l', 'l']
    else if c = 't' then expect ['r', 'u', 'e']
    else if c = 'f' then expect ['a', 'l', 's', 'e']
    else if c = '-' then discard <| (scanNumeral false (← get) : Except Fault _)
    else if c.isDigit then discard <| (scanNumeral true (c :: (← get)) : Except Fault _)
    else if c = '"' then discard <| scanText
    else throw .malformed
    throw .mismatched

/-- Reads a truth value. -/
def scanBoolean : Scan Bool := do
  let c ← peek
  if c = 't' then
    skipOne
    expect ['r', 'u', 'e']
    return true
  else if c = 'f' then
    skipOne
    expect ['a', 'l', 's', 'e']
    return false
  else
    refuse

/-- Reads a text. -/
def scanString : Scan String := do
  if (← peek) = '"' then
    skipOne
    scanText
  else
    refuse

/-- Reads a nonnegative integer of at most 64 bits. -/
def scanUnsigned : Scan UInt64 := do
  if (← peek).isDigit then
    match ← (scanNumeral true (← get) : Except Fault _) with
    | (.natural value, rest) =>
      set rest
      return value.toUInt64
    | (.other, _) => throw .mismatched
  else
    refuse

/-- Reads a value that may be `null`. -/
def scanOptional {α : Type} (scan : Scan α) : Scan (Option α) := do
  if (← peek?) = some 'n' then
    skipOne
    expect ['u', 'l', 'l']
    return none
  else
    some <$> scan

/-! ### Lists -/

/-- Whether another element of a list follows; if so, reading stands before it. -/
def hasElement (first : Bool) : Scan Bool := do
  let c ← peek
  if c = ']' then
    return false
  else if first then
    return true
  else if c = ',' then
    skipOne
    if (← peek) = ']' then throw .malformed else return true
  else
    throw .malformed

/-- Takes the end of a list. -/
def expectListEnd : Scan Unit := do
  if (← peek) = ']' then skipOne else throw .malformed

/-- Reads the elements of a list, at most `count` of them. -/
def scanElements {α : Type} (scan : Scan α) : Nat → Bool → Scan (List α)
  | 0, _ => return []
  | count + 1, first => do
    if ← hasElement first then
      let element ← scan
      let elements ← scanElements scan count false
      return element :: elements
    else
      return []

/-- Reads a list. It has fewer elements than characters. -/
def scanList {α : Type} (scan : Scan α) : Scan (List α) := do
  if (← peek) = '[' then
    skipOne
    let elements ← scanElements scan ((← get).length + 1) true
    expectListEnd
    return elements
  else
    refuse

/-! ### Records -/

/-- A field of a record: its name, and how its value is read into the record. -/
structure Field (ρ : Type) where
  name : String
  scan : ρ → Scan ρ

/-- Whether another entry of a record follows; if so, reading stands before its key. -/
def hasEntry (first : Bool) : Scan Bool := do
  let c ← peek
  if c = '\x7d' then
    return false
  else if first then
    if c = '"' then return true else throw .malformed
  else if c = ',' then
    skipOne
    if (← peek) = '"' then return true else throw .malformed
  else
    throw .malformed

/-- Reads the entries of a record, at most `count` of them. `seen` are the fields that were read
before. -/
def scanEntries {ρ : Type} (fields : List (Field ρ)) : Nat → Bool → List String → ρ → Scan ρ
  | 0, _, _, record => return record
  | count + 1, first, seen, record => do
    if ← hasEntry first then
      skipOne
      let key ← scanText
      match fields.find? fun field => field.name = key with
      | none =>
        expectColon
        skipValue
        scanEntries fields count false seen record
      | some field =>
        if key ∈ seen then
          throw .mismatched
        else
          expectColon
          let record ← field.scan record
          scanEntries fields count false (key :: seen) record
    else
      return record

/-- Takes the end of a record. -/
def expectRecordEnd : Scan Unit := do
  if (← peek) = '\x7d' then skipOne else throw .malformed

/-- Reads the fields of a record in order, as far as they are there. -/
def scanFields {ρ : Type} : List (Field ρ) → Bool → ρ → Scan ρ
  | [], _, record => return record
  | field :: fields, first, record => do
    if ← hasElement first then
      let record ← field.scan record
      scanFields fields false record
    else
      return record

/-- Reads a record into one with the values that missing fields have. It has fewer entries
than characters. -/
def scanRecord {ρ : Type} (fields : List (Field ρ)) (default : ρ) : Scan ρ := do
  let c ← peek
  if c = '[' then
    skipOne
    let record ← scanFields fields true default
    expectListEnd
    return record
  else if c = '\x7b' then
    skipOne
    let record ← scanEntries fields ((← get).length + 1) true [] default
    expectRecordEnd
    return record
  else
    refuse

end ApiSchema.Json
