/-!
# Joining and splitting

A text cut at a separator, and its pieces put together again.
-/

namespace Clausification.Text

/-- Cut a list of characters at every occurrence of `sep`, found from left to right. `skip` counts
the characters of the current occurrence that are still to be passed, and `piece` holds the
characters of the current piece, last first. -/
def piecesFrom (sep : List Char) : (skip : Nat) → (piece : List Char) → List Char → List (List Char)
  | _, piece, [] => [piece.reverse]
  | skip + 1, piece, _ :: cs => piecesFrom sep skip piece cs
  | 0, piece, c :: cs =>
    if sep.isPrefixOf (c :: cs) then
      piece.reverse :: piecesFrom sep (sep.length - 1) [] cs
    else
      piecesFrom sep 0 (c :: piece) cs

/-- The pieces of a text between the occurrences of a non-empty separator. -/
def splitAt (sep s : String) : List String :=
  (piecesFrom sep.toList 0 [] s.toList).map String.ofList

def join (sep : String) (parts : List String) : String := sep.intercalate parts

@[simp] theorem join_nil (sep : String) : join sep [] = "" := rfl

@[simp] theorem join_singleton (sep s : String) : join sep [s] = s := rfl

def replaceChar (old : Char) (new : String) (s : String) : String :=
  String.ofList (s.toList.flatMap fun c => if c = old then new.toList else [c])

end Clausification.Text
