import ApiSchema.Diagnostic.Message
import ApiSchema.Text.Span

/-!
# Diagnostics

A diagnostic is a message with its arguments inserted and, when known, the place it points at.
Diagnostics are collected in the order of reporting; for presentation they are sorted by place,
which keeps the reporting order among those at the same place, and cut to a given number.
-/

namespace ApiSchema

/-- A reported message. -/
structure Diagnostic where
  /-- What is reported. -/
  message : Message
  /-- The message text with its arguments inserted. -/
  text : String
  /-- The file that the diagnostic points into. -/
  file : Option String
  /-- The place in the file. -/
  span : Option Span
  deriving DecidableEq

namespace Diagnostic

/-- A diagnostic about the places that are given. -/
def make (message : Message) (arguments : List String) (file : Option String)
    (span : Option Span) : Diagnostic :=
  ⟨message, formatTemplate message.template arguments, file, span⟩

/-- The code of the message. -/
def code (d : Diagnostic) : Nat := d.message.code

/-- Whether the diagnostic is more than a warning. -/
def isError (d : Diagnostic) : Bool := d.message.category = .error

/-- The position the diagnostic is sorted by; one without a span counts as the beginning. -/
def position (d : Diagnostic) : Nat := (d.span.map Span.start).getD 0

/-- The line shown to the user: the place, if any, then category, code and text. -/
def render (d : Diagnostic) : String :=
  let place := match d.file with
    | none => ""
    | some file =>
      let position := match d.span with
        | none => ""
        | some span => "(" ++ toString span.start ++ ")"
      file ++ position ++ ": "
  place ++ d.message.category.render ++ " ADL" ++ toString d.code ++ ": " ++ d.text

/-- The order of files: no file first, then by name, character by character. -/
def compareFiles : Option String → Option String → Ordering
  | none, none => .eq
  | none, some _ => .lt
  | some _, none => .gt
  | some a, some b => compare a b

/-- Whether `a` may stand before `b` when sorted by file and position. -/
def le (a b : Diagnostic) : Bool :=
  match compareFiles a.file b.file with
  | .lt => true
  | .eq => a.position ≤ b.position
  | .gt => false

end Diagnostic

/-- Diagnostics in the order in which they were reported. -/
structure Diagnostics where
  /-- The diagnostics, oldest first. -/
  toList : List Diagnostic
  deriving DecidableEq

namespace Diagnostics

/-- No diagnostics. -/
def empty : Diagnostics := ⟨[]⟩

instance : Inhabited Diagnostics := ⟨empty⟩

/-- Adds a diagnostic at the end. -/
def add (ds : Diagnostics) (d : Diagnostic) : Diagnostics := ⟨ds.toList ++ [d]⟩

/-- Adds all of `more` at the end. -/
def append (ds more : Diagnostics) : Diagnostics := ⟨ds.toList ++ more.toList⟩

/-- The number of diagnostics. -/
def size (ds : Diagnostics) : Nat := ds.toList.length

/-- Whether nothing was reported. -/
def isEmpty (ds : Diagnostics) : Bool := ds.toList.isEmpty

/-- Whether an error was reported. -/
def hasErrors (ds : Diagnostics) : Bool := ds.toList.any Diagnostic.isError

/-- The number of reported errors. -/
def errorCount (ds : Diagnostics) : Nat := ds.toList.countP Diagnostic.isError

/-- How often a message with the given code was reported. -/
def countCode (ds : Diagnostics) (code : Nat) : Nat := ds.toList.countP fun d => d.code = code

/-- Keeps only the first `count` diagnostics. -/
def truncate (ds : Diagnostics) (count : Nat) : Diagnostics := ⟨ds.toList.take count⟩

/-- Sorts by file and position and keeps the order of those that agree in both. -/
def sort (ds : Diagnostics) : Diagnostics := ⟨ds.toList.mergeSort Diagnostic.le⟩

end Diagnostics

end ApiSchema
