import ApiSchema.Json.Numeral
import ApiSchema.Json.Quoted

/-!
# Passing over values

A value that nobody asked for is passed over, however deeply it is nested. The brackets that are
open are kept on a stack, and every step takes at least one character.
-/

namespace ApiSchema.Json

/-- A list or a record whose end has not been reached. -/
inductive Frame where
  | list
  | record
  deriving DecidableEq

/-- The character that ends a list or a record. -/
def Frame.closing : Frame → Char
  | list => ']'
  | record => '\x7d'

/-- What comes next when passing over a value. -/
inductive Position where
  /-- A value. -/
  | value
  /-- The first part of a list or record, or its end. -/
  | opened
  /-- A further part of a list or record, or its end. -/
  | afterValue
  deriving DecidableEq

/-- What is left after a step: the whole value is done, or there is more to pass over. -/
inductive Progress where
  | done (rest : List Char)
  | more (position : Position) (stack : List Frame) (rest : List Char)

/-- Takes the given characters off a text. -/
def skipWord (word : List Char) (chars : List Char) : Except Fault (List Char) := do
  let (_, rest) ← (expect word).run chars
  return rest

/-- Passes over a value without parts, given its first character. -/
def skipScalar (first : Char) (rest : List Char) : Except Fault (List Char) :=
  if first = 'n' then skipWord ['u', 'l', 'l'] rest
  else if first = 't' then skipWord ['r', 'u', 'e'] rest
  else if first = 'f' then skipWord ['a', 'l', 's', 'e'] rest
  else if first = '-' then skipNumeral rest
  else if first.isDigit then skipNumeral (first :: rest)
  else if first = '"' then skipText rest
  else .error .malformed

/-- Passes over a value without parts, or over an opening bracket. -/
def skipValueStart (stack : List Frame) (chars : List Char) : Except Fault Progress :=
  match chars.dropWhile isBlank with
  | [] => .error .truncated
  | c :: rest =>
    if c = '[' then .ok (.more .opened (.list :: stack) rest)
    else if c = '\x7b' then .ok (.more .opened (.record :: stack) rest)
    else (skipScalar c rest).map fun rest => .more .afterValue stack rest

/-- Passes over the key of a value and the colon after it. -/
def skipKey (chars : List Char) : Except Fault (List Char) :=
  match chars.dropWhile isBlank with
  | [] => .error .truncated
  | c :: rest =>
    if c = '"' then do
      match (← skipText rest).dropWhile isBlank with
      | [] => .error .truncated
      | c :: rest => if c = ':' then .ok rest else .error .malformed
    else .error .malformed

/-- Passes over what stands before the value of a part. -/
def skipPartStart (frame : Frame) (stack : List Frame) (chars : List Char) :
    Except Fault Progress :=
  match frame with
  | .list => skipValueStart stack chars
  | .record => (skipKey chars).map fun rest => .more .value stack rest

/-- One step of passing over a value. -/
def skipStep (position : Position) (stack : List Frame) (chars : List Char) :
    Except Fault Progress :=
  match position, stack with
  | .value, stack => skipValueStart stack chars
  | _, [] => .ok (.done chars)
  | .opened, frame :: outer =>
    match chars.dropWhile isBlank with
    | [] => .error .truncated
    | c :: rest =>
      if c = frame.closing then .ok (.more .afterValue outer rest)
      else skipPartStart frame (frame :: outer) (c :: rest)
  | .afterValue, frame :: outer =>
    match chars.dropWhile isBlank with
    | [] => .error .truncated
    | c :: rest =>
      if c = ',' then skipPartStart frame (frame :: outer) rest
      else if c = frame.closing then .ok (.more .afterValue outer rest)
      else .error .malformed

/-- Passes over a value in at most `steps` steps. -/
def skipWithin : Nat → Position → List Frame → List Char → Except Fault (List Char)
  | 0, _, _, _ => .error .truncated
  | steps + 1, position, stack, chars =>
    match skipStep position stack chars with
    | .error fault => .error fault
    | .ok (.done rest) => .ok rest
    | .ok (.more position stack rest) => skipWithin steps position stack rest

/-- Passes over a value. There are at most as many steps as characters, and a last one. -/
def skipValue : Scan Unit := do
  let chars ← get
  let rest ← (skipWithin (chars.length + 1) .value [] chars : Except Fault _)
  set rest

end ApiSchema.Json
