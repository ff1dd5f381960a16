import ApiSchema.Json.Scan

/-!
# Quoted texts

A text stands between quotes. Quotes, backslashes and control characters are written as escapes; a
character can also be written by its code in four hexadecimal digits, or by two such codes, a
leading and a trailing surrogate, if it has a code of more than sixteen bits.
-/

namespace ApiSchema.Json

/-! ### Writing -/

/-- The digit for a number below sixteen. -/
def hexDigit (n : Nat) : Char := if n < 10 then Char.ofNat (48 + n) else Char.ofNat (87 + n)

/-- The letter that stands for a character after a backslash. -/
def escapeLetter? (c : Char) : Option Char :=
  if c = '"' then some '"'
  else if c = '\\' then some '\\'
  else if c = '\x08' then some 'b'
  else if c = '\x0c' then some 'f'
  else if c = '\n' then some 'n'
  else if c = '\r' then some 'r'
  else if c = '\t' then some 't'
  else none

/-- A character as it is written between quotes. -/
def encodeChar (c : Char) : List Char :=
  match escapeLetter? c with
  | some letter => ['\\', letter]
  | none =>
    if c.toNat < 0x20 then
      ['\\', 'u', '0', '0', hexDigit (c.toNat / 16), hexDigit (c.toNat % 16)]
    else
      [c]

/-- A text with its quotes. -/
def quote (text : String) : List Char := '"' :: text.toList.flatMap encodeChar ++ ['"']

/-! ### Reading -/

/-- The value of a hexadecimal digit. -/
def hexValue? (c : Char) : Option Nat :=
  if '0' ≤ c ∧ c ≤ '9' then some (c.toNat - 48)
  else if 'a' ≤ c ∧ c ≤ 'f' then some (c.toNat - 87)
  else if 'A' ≤ c ∧ c ≤ 'F' then some (c.toNat - 55)
  else none

/-- The number of bytes of a text. -/
def byteLength (chars : List Char) : Nat := chars.foldl (fun n c => n + c.utf8Size) 0

/-- Reads a code of four digits. A rest of less than four bytes counts as cut off. -/
def scanCode : List Char → Except Fault (Nat × List Char)
  | a :: b :: c :: d :: rest =>
    match hexValue? a, hexValue? b, hexValue? c, hexValue? d with
    | some a, some b, some c, some d => .ok (((a * 16 + b) * 16 + c) * 16 + d, rest)
    | _, _, _, _ => .error .malformed
  | rest => if byteLength rest < 4 then .error .truncated else .error .malformed

/-- Whether a code is the first one of a pair. -/
def isLeading (code : Nat) : Bool := 0xD800 ≤ code && code ≤ 0xDBFF

/-- Whether a code is the second one of a pair. -/
def isTrailing (code : Nat) : Bool := 0xDC00 ≤ code && code ≤ 0xDFFF

/-- Reads the second code of a pair, its backslash included. -/
def scanTrailing (leading : Nat) : List Char → Except Fault (Char × List Char)
  | [] => .error .truncated
  | ['\\'] => .error .truncated
  | '\\' :: 'u' :: rest =>
    match scanCode rest with
    | .error fault => .error fault
    | .ok (code, rest) =>
      if isTrailing code then
        .ok (Char.ofNat (0x10000 + (leading - 0xD800) * 0x400 + (code - 0xDC00)), rest)
      else
        .error .malformed
  | _ => .error .malformed

/-- Reads a character that is written by its code. -/
def scanCoded (chars : List Char) : Except Fault (Char × List Char) :=
  match scanCode chars with
  | .error fault => .error fault
  | .ok (code, rest) =>
    if isTrailing code then .error .malformed
    else if isLeading code then scanTrailing code rest
    else .ok (Char.ofNat code, rest)

/-- The character that a letter after a backslash stands for. -/
def escaped? (letter : Char) : Option Char :=
  if letter = '"' then some '"'
  else if letter = '\\' then some '\\'
  else if letter = '/' then some '/'
  else if letter = 'b' then some '\x08'
  else if letter = 'f' then some '\x0c'
  else if letter = 'n' then some '\n'
  else if letter = 'r' then some '\r'
  else if letter = 't' then some '\t'
  else none

/-- Reads what follows a backslash. -/
def scanEscape : List Char → Except Fault (Char × List Char)
  | [] => .error .truncated
  | letter :: rest =>
    match escaped? letter with
    | some c => .ok (c, rest)
    | none => if letter = 'u' then scanCoded rest else .error .malformed

/-- Reading a code uses up characters. -/
theorem length_of_scanCode {chars rest : List Char} {code : Nat}
    (h : scanCode chars = .ok (code, rest)) : rest.length < chars.length := by
  unfold scanCode at h
  split at h
  · split at h
    · simp only [Except.ok.injEq, Prod.mk.injEq] at h
      obtain ⟨-, rfl⟩ := h
      simp only [List.length_cons]
      omega
    · simp at h
  · split at h <;> simp at h

/-- Reading a second code uses up characters. -/
theorem length_of_scanTrailing {leading : Nat} {chars rest : List Char} {c : Char}
    (h : scanTrailing leading chars = .ok (c, rest)) : rest.length < chars.length := by
  unfold scanTrailing at h
  split at h
  · simp at h
  · simp at h
  · split at h
    · simp at h
    · next hcode =>
      have := length_of_scanCode hcode
      split at h
      · simp only [Except.ok.injEq, Prod.mk.injEq] at h
        obtain ⟨-, rfl⟩ := h
        simp only [List.length_cons]
        omega
      · simp at h
  · simp at h

/-- Reading a coded character uses up characters. -/
theorem length_of_scanCoded {chars rest : List Char} {c : Char}
    (h : scanCoded chars = .ok (c, rest)) : rest.length < chars.length := by
  unfold scanCoded at h
  split at h
  · simp at h
  · next hcode =>
    have := length_of_scanCode hcode
    split at h
    · simp at h
    · split at h
      · have := length_of_scanTrailing h
        omega
      · simp only [Except.ok.injEq, Prod.mk.injEq] at h
        obtain ⟨-, rfl⟩ := h
        omega

/-- Reading an escape uses up characters. -/
theorem length_of_scanEscape {chars rest : List Char} {c : Char}
    (h : scanEscape chars = .ok (c, rest)) : rest.length < chars.length := by
  unfold scanEscape at h
  split at h
  · simp at h
  · split at h
    · simp only [Except.ok.injEq, Prod.mk.injEq] at h
      obtain ⟨-, rfl⟩ := h
      simp
    · split at h
      · have := length_of_scanCoded h
        simp only [List.length_cons]
        omega
      · simp at h

/-- Reads a text up to its closing quote. -/
def decode (chars : List Char) : Except Fault (List Char × List Char) :=
  match chars with
  | [] => .error .truncated
  | c :: rest =>
    if c = '"' then .ok ([], rest)
    else if c = '\\' then
      match _h : scanEscape rest with
      | .error fault => .error fault
      | .ok (d, rest) => (decode rest).map fun answer => (d :: answer.1, answer.2)
    else if c.toNat < 0x20 then .error .malformed
    else (decode rest).map fun answer => (c :: answer.1, answer.2)
termination_by chars.length
decreasing_by
  · have := length_of_scanEscape _h
    simp only [List.length_cons]
    omega
  · simp

/-- Reads a text after its opening quote. -/
def scanText : Scan String := do
  let (chars, rest) ← (decode (← get) : Except Fault _)
  set rest
  return String.ofList chars

/-- Passes over a text after its opening quote. Its codes need not come in pairs. -/
def skipText (chars : List Char) : Except Fault (List Char) :=
  match chars with
  | [] => .error .truncated
  | c :: rest =>
    if c = '"' then .ok rest
    else if c = '\\' then
      match rest with
      | [] => .error .truncated
      | letter :: rest =>
        if (escaped? letter).isSome then skipText rest
        else if letter = 'u' then
          match _h : scanCode rest with
          | .error fault => .error fault
          | .ok (_, rest) => skipText rest
        else .error .malformed
    else if c.toNat < 0x20 then .error .malformed
    else skipText rest
termination_by chars.length
decreasing_by
  · simp only [List.length_cons]
    omega
  · have := length_of_scanCode _h
    simp only [List.length_cons]
    omega
  · simp

end ApiSchema.Json
