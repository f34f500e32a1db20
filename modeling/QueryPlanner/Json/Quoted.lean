import QueryPlanner.Text.Hex
import QueryPlanner.Text.Reader

/-!
# Strings of JSON

* `Json.readEscape` — what an escape stands for; a pair of surrogates is one character
* `Json.readString` — a string off the front of a text, its opening quote read
-/

namespace QueryPlanner

namespace Json

/-- The character of an escape of one letter. -/
def plainEscape? : Char → Option Char
  | '"' => some '"'
  | '\\' => some '\\'
  | '/' => some '/'
  | 'b' => some '\x08'
  | 'f' => some '\x0c'
  | 'n' => some '\n'
  | 'r' => some '\r'
  | 't' => some '\t'
  | _ => none

/-- The code unit that four hexadecimal digits write. -/
def readUnit (cs : List Char) : Option (Nat × List Char) :=
  if cs.length < 4 then none else (Text.ofHex? (cs.take 4)).map (·, cs.drop 4)

/-- The character after `\u`: one code unit, or two surrogates of which the second is escaped as
well.  A surrogate alone is refused. -/
def readCodePoint : Text.Reader Char := fun cs => do
  let (first, rest) ← readUnit cs
  match Text.charOfCode? first with
  | some c => some (c, rest)
  | none =>
    let rest ← Text.Reader.strip? ['\\', 'u'] rest
    let (second, rest) ← readUnit rest
    if first < 0xdc00 && 0xdc00 ≤ second && second < 0xe000 then
      let c ← Text.charOfCode? (0x10000 + (first - 0xd800) * 0x400 + (second - 0xdc00))
      some (c, rest)
    else none

/-- The character of an escape, its backslash read. -/
def readEscape : Text.Reader Char
  | 'u' :: cs => readCodePoint cs
  | c :: cs => (plainEscape? c).map (·, cs)
  | [] => none

/-- A character of a string; control characters must be escaped. -/
def readChar : Text.Reader Char
  | '\\' :: cs => readEscape cs
  | c :: cs => if c.toNat < 0x20 then none else some (c, cs)
  | [] => none

/-- A string, its opening quote read. -/
def readString : Text.Reader String := fun cs => do
  let ((chars, _), rest) ← Text.Reader.upTo readChar
    (fun cs => (Text.Reader.strip? ['"'] cs).map ((), ·)) cs
  some (String.ofList chars, rest)

end Json

end QueryPlanner
