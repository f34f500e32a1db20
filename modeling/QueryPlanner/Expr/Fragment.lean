import QueryPlanner.Expr.Basic

/-!
# Fragments from a text with markers

* `Part.ofText` — the parts of a text whose question marks stand for given expressions
* `Expr.fragmentOf` — the fragment made of them
-/

namespace QueryPlanner

universe u

namespace Part

variable {ε : Type u}

/-- The pieces of a text between its question marks; there is one more piece than marks. -/
def pieces : List Char → List Char × List (List Char)
  | [] => ([], [])
  | c :: cs =>
    let (first, others) := pieces cs
    if c = '?' then ([], first :: others) else (c :: first, others)

/-- A piece of text as a part; nothing if it is empty. -/
def ofPiece (piece : List Char) : List (Part ε) :=
  if piece.isEmpty then [] else [.raw (String.ofList piece)]

/-- The parts that follow the first piece: an argument, as long as there is one, in front of each
further piece. -/
def interleave : List (List Char) → List ε → List (Part ε)
  | [], _ => []
  | piece :: rest, [] => ofPiece piece ++ interleave rest []
  | piece :: rest, argument :: arguments =>
    .term argument :: (ofPiece piece ++ interleave rest arguments)

/-- The parts of a text, its question marks replaced in order by the arguments.  A mark without an
argument vanishes, and so does an argument without a mark. -/
def ofText (text : String) (arguments : List ε) : List (Part ε) :=
  let (first, others) := pieces text.toList
  ofPiece first ++ interleave others arguments

end Part

namespace Expr

/-- A fragment from a text with markers and the expressions that they stand for. -/
def fragmentOf (text : String) (arguments : List Expr) : Expr :=
  .fragment (Part.ofText text arguments)

/-- The number of markers in a text. -/
def markers (text : String) : Nat := text.toList.count '?'

end Expr

end QueryPlanner
