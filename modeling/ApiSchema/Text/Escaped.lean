import ApiSchema.Text.Hidden

/-!
# Escaped texts

A text in a listing stands between double quotes, with escapes for the characters that cannot be
shown.
-/

namespace ApiSchema.Escaped

/-- The escape of a character by its code. -/
def code (c : Char) : List Char :=
  ['\\', 'u', '\x7b'] ++ Nat.toDigits 16 c.toNat ++ ['\x7d']

/-- A character as it stands in a listing. -/
def char (c : Char) : List Char :=
  if c = '\x00' then ['\\', '0']
  else if c = '\t' then ['\\', 't']
  else if c = '\r' then ['\\', 'r']
  else if c = '\n' then ['\\', 'n']
  else if c = '\\' ∨ c = '"' then ['\\', c]
  else if Hidden.isHidden c then code c
  else [c]

/-- A text as it stands in a listing. -/
def text (s : String) : String := String.ofList ('"' :: s.toList.flatMap char ++ ['"'])

/-- A listing of texts. -/
def listing (texts : List String) : String :=
  "\x7b" ++ ", ".intercalate (texts.map text) ++ "\x7d"

end ApiSchema.Escaped
