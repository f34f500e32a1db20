import QueryPlanner.Text.Hex
import QueryPlanner.Text.Reader

/-!
# Strings of TOML

A basic string stands between double quotes and has escapes, a literal one stands between single
quotes and has none.  Either may be written over several lines between three quotes.

* `Toml.readString` — a string of one of the four forms off the front of a text
* `Toml.readLineString` — a string of one line
-/

namespace QueryPlanner

namespace Toml

open Text (Reader)

/-- A character that may stand in a comment and in a string of one line. -/
def isPlain (c : Char) : Bool := c = '\t' || (0x20 ≤ c.toNat && c.toNat ≠ 0x7f)

/-- Blanks within a line. -/
def isBlank (c : Char) : Bool := c = ' ' || c = '\t'

/-- The rest of a text after a line break. -/
def newline? : List Char → Option (List Char)
  | '\n' :: cs => some cs
  | '\r' :: '\n' :: cs => some cs
  | _ => none

/-- The character of an escape of one letter. -/
def plainEscape? : Char → Option Char
  | 'b' => some '\x08'
  | 't' => some '\t'
  | 'n' => some '\n'
  | 'f' => some '\x0c'
  | 'r' => some '\r'
  | 'e' => some '\x1b'
  | '"' => some '"'
  | '\\' => some '\\'
  | _ => none

/-- The number of digits after the letter of a hexadecimal escape. -/
def escapeWidth? : Char → Option Nat
  | 'x' => some 2
  | 'u' => some 4
  | 'U' => some 8
  | _ => none

/-- The character of an escape, its backslash read. -/
def readEscape : Reader Char
  | [] => none
  | c :: cs =>
    match escapeWidth? c with
    | none => (plainEscape? c).map (·, cs)
    | some width =>
      if cs.length < width then none
      else ((Text.ofHex? (cs.take width)).bind Text.charOfCode?).map (·, cs.drop width)

/-- Pass over blanks and line breaks. -/
def skipLines : List Char → List Char
  | ' ' :: cs => skipLines cs
  | '\t' :: cs => skipLines cs
  | '\n' :: cs => skipLines cs
  | '\r' :: '\n' :: cs => skipLines cs
  | cs => cs

/-- A character of a literal string. -/
def readLiteral : Reader (List Char)
  | c :: cs => if isPlain c then some ([c], cs) else none
  | [] => none

/-- A character of a basic string. -/
def readBasic : Reader (List Char)
  | '\\' :: cs => (readEscape cs).map fun (c, rest) => ([c], rest)
  | cs => readLiteral cs

/-- A line break, or else what `part` reads. -/
def orNewline (part : Reader (List Char)) : Reader (List Char)
  | '\n' :: cs => some (['\n'], cs)
  | '\r' :: '\n' :: cs => some (['\r', '\n'], cs)
  | cs => part cs

/-- A part of a basic string of several lines.  A backslash at the end of a line passes over all
that is blank after it. -/
def readFolded : Reader (List Char)
  | '\\' :: cs =>
    match newline? (cs.dropWhile isBlank) with
    | some rest => some ([], skipLines rest)
    | none => readBasic ('\\' :: cs)
  | cs => orNewline readBasic cs

/-- The quote that ends a string of one line. -/
def lineEnd (quote : Char) : Reader (List Char) := fun cs =>
  (Reader.strip? [quote] cs).map ([], ·)

/-- The three quotes that end a string of several lines.  Up to two more belong to the string. -/
def blockEnd (quote : Char) : Reader (List Char) := fun cs =>
  if Reader.strip? [quote, quote, quote] cs |>.isSome then
    let extra := ((cs.drop 3).takeWhile (· == quote)).take 2
    some (extra, cs.drop (3 + extra.length))
  else none

/-- The string of the parts up to an end mark. -/
def readUpTo (part stop : Reader (List Char)) : Reader String := fun cs => do
  let ((parts, last), rest) ← Reader.upTo part stop cs
  some (String.ofList (parts.flatten ++ last), rest)

/-- A string of one line. -/
def readLineString : Reader String
  | '"' :: cs => readUpTo readBasic (lineEnd '"') cs
  | '\'' :: cs => readUpTo readLiteral (lineEnd '\'') cs
  | _ => none

/-- A string; of several lines the first may be empty and does not count. -/
def readString : Reader String
  | '"' :: '"' :: '"' :: cs => readUpTo readFolded (blockEnd '"') ((newline? cs).getD cs)
  | '\'' :: '\'' :: '\'' :: cs =>
    readUpTo (orNewline readLiteral) (blockEnd '\'') ((newline? cs).getD cs)
  | cs => readLineString cs

end Toml

end QueryPlanner
