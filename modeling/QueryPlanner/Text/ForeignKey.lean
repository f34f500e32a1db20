import QueryPlanner.Text.Letter

/-!
# Names of foreign keys

The key that points at a schema is derived from the schema's name: the last part of a name with
`::` in it, its words in lower case and joined by underscores, ending in `_id`.

* `Text.foreignKey` — the derived name
-/

namespace QueryPlanner

namespace Text

/-- What follows the last `::` of a name. -/
def lastSegment : List Char → List Char
  | ':' :: ':' :: rest => lastSegment rest
  | c :: rest => if segmentLater rest then lastSegment rest else c :: rest
  | [] => []
where
  /-- Whether a `::` stands anywhere in the text. -/
  segmentLater : List Char → Bool
    | ':' :: ':' :: _ => true
    | _ :: rest => segmentLater rest
    | [] => false

/-- A letter that is its own upper case within ASCII; digits and other scripts count as such. -/
def startsWord (c : Char) : Bool := c = c.toUpper

/-- The characters of `name` from byte `offset` on, in lower case and with an underscore for each
run of separators and before each new word.  `inside` says that a word has begun.  A capital
begins a word when one of the two characters of `name` around the position `offset` is lower case;
a position counts bytes, so past the first character of another script it looks further right. -/
def snakeFrom (name : List Char) (offset : Nat) (inside : Bool) : List Char → List Char
  | [] => []
  | c :: rest =>
    let next := offset + c.utf8Size
    if !isAlphanumeric c then
      if inside then '_' :: snakeFrom name next false rest else snakeFrom name next false rest
    else
      let lowerAt (i : Nat) : Bool := isLowercase (name[i]?.getD 'A')
      let separated := inside && startsWord c && (lowerAt (offset + 1) || lowerAt (offset - 1))
      let word := c.toLower :: snakeFrom name next true rest
      if separated then '_' :: word else word

/-- A name in lower case words joined by underscores, without the separators at its end. -/
def snakeCase (name : List Char) : List Char :=
  snakeFrom name 0 false (name.reverse.dropWhile (!isAlphanumeric ·)).reverse

/-- The name of the key that points at `name`. -/
def foreignKey (name : String) : String :=
  let key := snakeCase (lastSegment name.toList)
  if ['_', 'i', 'd'].isSuffixOf key then String.ofList key else String.ofList key ++ "_id"

end Text

end QueryPlanner
