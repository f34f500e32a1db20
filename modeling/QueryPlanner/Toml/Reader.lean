import QueryPlanner.Toml.Assembly
import QueryPlanner.Toml.Datetime
import QueryPlanner.Toml.Numeral
import QueryPlanner.Toml.Quoted

/-!
# Reading TOML

* `Toml.readValue` — a value off the front of a text, nested to a limited depth
* `Toml.readStatement` — a header or an assignment with the rest of its line
* `Toml.read` — the table of a whole text
-/

namespace QueryPlanner

namespace Toml

open Text (Reader)

/-- Pass over blanks, line breaks and comments. -/
def skipGap (inComment : Bool) : List Char → Option (List Char)
  | [] => some []
  | '\n' :: cs => skipGap false cs
  | '\r' :: '\n' :: cs => skipGap false cs
  | c :: cs =>
    if inComment then if isPlain c then skipGap true cs else none
    else if isBlank c then skipGap false cs
    else if c = '#' then skipGap true cs
    else some (c :: cs)

/-- A comment with the blanks in front of it, and the end of its line. -/
def skipLineEnd (cs : List Char) : Option (List Char) :=
  let rest := cs.dropWhile isBlank
  let rest := if rest.head? == some '#' then rest.dropWhile isPlain else rest
  if rest.isEmpty then some [] else newline? rest

/-- A character of a bare key. -/
def isKeyChar (c : Char) : Bool := c.isAlphanum || c = '-' || c = '_'

/-- A key without dots. -/
def readSimpleKey : Reader String := fun cs =>
  match readLineString cs with
  | some found => some found
  | none =>
    let name := cs.takeWhile isKeyChar
    if name.isEmpty then none else some (String.ofList name, cs.dropWhile isKeyChar)

/-- At most `fuel` keys with dots between them, and the blanks after them. -/
def readKeys : Nat → Reader (List String)
  | 0, _ => none
  | fuel + 1, cs => do
    let (key, rest) ← readSimpleKey cs
    match rest.dropWhile isBlank with
    | '.' :: rest =>
      let (keys, rest) ← readKeys fuel (rest.dropWhile isBlank)
      some (key :: keys, rest)
    | rest => some ([key], rest)

/-- How many parts a dotted key may have. -/
def maxKeyParts : Nat := 80

/-- A dotted key: the path to its table, and its last part. -/
def readKey : Reader (List String × String) := fun cs => do
  let (keys, rest) ← readKeys maxKeyParts cs
  let last ← keys.getLast?
  some ((keys.dropLast, last), rest)

/-- The blanks, line breaks and marks that part a document. -/
def isDelimiter (c : Char) : Bool :=
  ['=', ',', '[', ']', '\x7b', '\x7d', '#', ' ', '\t', '\r', '\n'].contains c

/-- The characters of numbers, dates and the words for truth values: all that is no delimiter. -/
def isWordChar (c : Char) : Bool := !isDelimiter c

/-- The value of a word. -/
def ofWord (word : List Char) : Option Toml :=
  if word = "true".toList then some (.boolean true)
  else if word = "false".toList then some (.boolean false)
  else
    readInteger word <|> readFloat word <|>
      (Datetime.read word).map fun d => Toml.datetime d.render

/-- A word off the front of a text.  A blank between a date and a time is part of it. -/
def readWord : Reader (List Char) := fun cs =>
  let word := cs.takeWhile isWordChar
  let rest := cs.dropWhile isWordChar
  match (Datetime.readDate word), rest with
  | some (_, []), ' ' :: c :: more =>
    if c.isDigit then
      some (word ++ ' ' :: (c :: more).takeWhile isWordChar, (c :: more).dropWhile isWordChar)
    else some (word, rest)
  | _, _ => some (word, rest)

/-- A string or a word. -/
def readScalar : Reader Toml := fun cs =>
  if cs.head? == some '"' || cs.head? == some '\'' then
    (readString cs).map fun (s, rest) => (.string s, rest)
  else do
    let (word, rest) ← readWord cs
    let value ← ofWord word
    some (value, rest)

/-- A key, an equals sign and what `value` reads.  `gap` passes over what may stand on either side
of the sign. -/
def readAssignment (gap : List Char → Option (List Char)) (value : Reader Toml) :
    Reader Assignment := fun cs => do
  let ((path, key), rest) ← readKey cs
  let rest ← Reader.strip? ['='] (← gap rest)
  let (v, rest) ← value (← gap rest)
  some (⟨path, key, v⟩, rest)

/-- How deep arrays and tables between braces may be nested. -/
def maxDepth : Nat := 80

/-- A value, nested at most to the given depth. -/
def readValue (depth : Nat) : Reader Toml := fun cs =>
  match cs, depth with
  | '[' :: rest, depth + 1 =>
    (Reader.enclosed (skipGap false) (readValue depth) ']' true rest).map
      fun (items, rest) => (.array items, rest)
  | '\x7b' :: rest, depth + 1 => do
    let assignment := readAssignment (skipGap false) (readValue depth)
    let (assignments, rest) ← Reader.enclosed (skipGap false) assignment '\x7d' true rest
    let table ← ofAssignments assignments
    some (table, rest)
  | '[' :: _, 0 => none
  | '\x7b' :: _, 0 => none
  | rest, _ => readScalar rest

/-- A header, its opening brackets read. -/
def readHeader (inArray : Bool) : Reader Header := fun cs => do
  let ((path, key), rest) ← readKey (cs.dropWhile isBlank)
  let rest ← Reader.strip? (if inArray then [']', ']'] else [']']) rest
  some (⟨path, key, inArray⟩, rest)

/-- A header or an assignment. -/
def readStatement : Reader Statement
  | '[' :: '[' :: cs => (readHeader true cs).map fun (h, rest) => (.header h, rest)
  | '[' :: cs => (readHeader false cs).map fun (h, rest) => (.header h, rest)
  | cs =>
    (readAssignment (fun cs => some (cs.dropWhile isBlank)) (readValue maxDepth) cs).map
      fun (a, rest) => (.assignment a, rest)

/-- A statement with the rest of its line and all that is blank after it. -/
def readLine : Reader Statement := fun cs => do
  let (statement, rest) ← readStatement cs
  let rest ← skipLineEnd rest
  let rest ← skipGap false rest
  some (statement, rest)

/-- The end of a text. -/
def atEnd : Reader Unit := fun cs => if cs.isEmpty then some ((), []) else none

/-- The table that a text writes; a mark of the byte order may stand in front. -/
def read (text : String) : Option Toml := do
  let cs := text.toList
  let cs ← skipGap false (if cs.head? == some '\ufeff' then cs.drop 1 else cs)
  let ((statements, _), _) ← Reader.upTo readLine atEnd cs
  assemble statements

end Toml

end QueryPlanner
