/-!
# Reading a text from the front

A reader takes an item off the front of a text and gives back the rest, or refuses the text.

* `Text.Reader.upTo` — items in a row up to an end mark
* `Text.Reader.enclosed` — items between brackets, commas between them
-/

namespace QueryPlanner

namespace Text

/-- What takes an item off the front of a text: the item and the rest, or nothing. -/
abbrev Reader (α : Type) := List Char → Option (α × List Char)

namespace Reader

variable {α β : Type}

/-- The rest of a text after the characters it is expected to start with. -/
def strip? (expected cs : List Char) : Option (List Char) :=
  if expected.isPrefixOf cs then some (cs.drop expected.length) else none

/-- At most `fuel - 1` items in a row, then the end mark. -/
def manyTill (item : Reader α) (stop : Reader β) : Nat → Reader (List α × β)
  | 0, _ => none
  | fuel + 1, cs =>
    match stop cs with
    | some (last, rest) => some (([], last), rest)
    | none => do
      let (x, rest) ← item cs
      let ((xs, last), rest) ← manyTill item stop fuel rest
      some ((x :: xs, last), rest)

/-- Items in a row up to the end mark.  Every item takes at least one character, so a text holds no
more items than characters. -/
def upTo (item : Reader α) (stop : Reader β) : Reader (List α × β) :=
  fun cs => manyTill item stop (cs.length + 1) cs

/-- At most `fuel` items with commas between them, and the closing bracket.  `gap` passes over what
may stand between the parts; a last comma before the bracket counts only if it is `trailing`. -/
def items (gap : List Char → Option (List Char)) (item : Reader α) (close : Char)
    (trailing : Bool) : Nat → Reader (List α)
  | 0, _ => none
  | fuel + 1, cs => do
    let (x, rest) ← item cs
    match ← gap rest with
    | [] => none
    | c :: rest =>
      if c = close then some ([x], rest)
      else if c ≠ ',' then none
      else
        let rest ← gap rest
        if trailing && rest.head? == some close then some ([x], rest.drop 1)
        else
          let (xs, rest) ← items gap item close trailing fuel rest
          some (x :: xs, rest)

/-- The items between brackets, of which the opening one has been read. -/
def enclosed (gap : List Char → Option (List Char)) (item : Reader α) (close : Char)
    (trailing : Bool) : Reader (List α) := fun cs => do
  let cs ← gap cs
  if cs.head? == some close then some ([], cs.drop 1)
  else items gap item close trailing cs.length cs

end Reader

end Text

end QueryPlanner
