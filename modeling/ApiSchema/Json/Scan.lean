/-!
# Scanning JSON text

A scanner reads from the front of a text and answers a value and the rest. It fails in one of three
ways: the text ends too early, it is not JSON, or it is JSON of another form than was asked for.
Blanks are spaces, tabs and the two line-end characters.
-/

namespace ApiSchema.Json

/-- Why a text cannot be read. -/
inductive Fault where
  /-- The text is not JSON. -/
  | malformed
  /-- The text holds a value of another form than the one asked for. -/
  | mismatched
  /-- The text ends too early. -/
  | truncated
  deriving DecidableEq

/-- The word for a kind of fault. -/
def Fault.category : Fault → String
  | malformed => "syntax"
  | mismatched => "data"
  | truncated => "eof"

/-- A reader from the front of a text. -/
abbrev Scan := StateT (List Char) (Except Fault)

/-- Whether a character may stand between the parts of a value. -/
def isBlank (c : Char) : Bool := c = ' ' || c = '\n' || c = '\t' || c = '\r'

/-- Passes over blanks and answers the next character without taking it. -/
def peek? : Scan (Option Char) := do
  let rest := (← get).dropWhile isBlank
  set rest
  return rest.head?

/-- Passes over blanks and answers the next character without taking it; there must be one. -/
def peek : Scan Char := do
  match ← peek? with
  | some c => return c
  | none => throw .truncated

/-- Takes one character. -/
def skipOne : Scan Unit := modify List.tail

/-- Takes the given characters, one after the other. -/
def expect : List Char → Scan Unit
  | [] => return ()
  | c :: cs => do
    match ← get with
    | [] => throw .truncated
    | d :: rest =>
      if c = d then
        set rest
        expect cs
      else
        throw .malformed

/-- Takes the colon between a key and its value. -/
def expectColon : Scan Unit := do
  if (← peek) = ':' then skipOne else throw .malformed

/-- Reads a whole text: after the value only blanks may follow. -/
def parse {α : Type} (scan : Scan α) (text : String) : Except Fault α := do
  let (answer, rest) ← scan.run text.toList
  if (rest.dropWhile isBlank).isEmpty then return answer else throw .malformed

end ApiSchema.Json
