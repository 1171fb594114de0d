import GoInventory.Text.Invisible

/-!
# Quoted text

A text between double quotes, written so that a reader sees every character:
quotes and backslashes are escaped, line breaks, tabs and NUL have their
letters, and every other character without a shape of its own stands as its
number in braces.
-/

namespace GoInventory.Text

/-- A code point in lower-case hexadecimal digits. -/
def hexDigits (n : Nat) : List Char :=
  Nat.toDigits 16 n

/-- How one character is written inside quotes. -/
def escapeChar (c : Char) : List Char :=
  if c == '\x00' then ['\\', '0']
  else if c == '\t' then ['\\', 't']
  else if c == '\n' then ['\\', 'n']
  else if c == '\r' then ['\\', 'r']
  else if c == '\x22' then ['\\', '\x22']
  else if c == '\\' then ['\\', '\\']
  else if isInvisible c then ['\\', 'u', '\x7b'] ++ hexDigits c.toNat ++ ['\x7d']
  else [c]

/-- The text between double quotes, with its escapes. -/
def quote (s : String) : String :=
  String.ofList ('\x22' :: s.toList.flatMap escapeChar ++ ['\x22'])

end GoInventory.Text
