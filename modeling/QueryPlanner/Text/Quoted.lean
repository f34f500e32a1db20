import QueryPlanner.Text.Unprintable

/-!
# Quoted text

Strings are shown between double quotes.  The quote and the backslash are escaped, four controls
have a letter of their own, and every other unprintable character is shown by its code point.

* `Text.escape` — one character
* `Text.quote` — a whole text
-/

namespace QueryPlanner

namespace Text

/-- The lower case hexadecimal digits of a number. -/
def hexDigits (n : Nat) : List Char := Nat.toDigits 16 n

/-- A character by its code point, between braces. -/
def escapeCodePoint (c : Char) : List Char :=
  ['\\', 'u', '\x7b'] ++ hexDigits c.toNat ++ ['\x7d']

/-- A character as quoted text shows it. -/
def escape (c : Char) : List Char :=
  if c = '\x00' then ['\\', '0']
  else if c = '\t' then ['\\', 't']
  else if c = '\r' then ['\\', 'r']
  else if c = '\n' then ['\\', 'n']
  else if c = '"' then ['\\', '"']
  else if c = '\\' then ['\\', '\\']
  else if CharSet.unprintable.contains c then escapeCodePoint c
  else [c]

/-- A text between double quotes, each character escaped where it has to be. -/
def quote (s : String) : String :=
  String.ofList ('"' :: (s.toList.flatMap escape ++ ['"']))

end Text

end QueryPlanner
