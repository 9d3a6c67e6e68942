import Clausification.Clause.Horn
import Clausification.Formula.Rendering

/-!
# Writing clauses

Clauses as disjunctions, lists of clauses as conjunctions, and the table that shows each clause with
its kind.
-/

namespace Clausification

def Literal.render (n : Notation) (l : Literal) : Except Obstacle String :=
  (l.atom.render n).map fun s => if l.positive then s else n.signs.neg ++ s

namespace Clause

def render (n : Notation) (c : Clause) : Except Obstacle String :=
  if c.isEmpty then .ok n.signs.emptyClause
  else return Text.join n.signs.or (← c.mapM (Literal.render n))

def renderAll (n : Notation) (cs : List Clause) : Except Obstacle String :=
  if cs.isEmpty then .ok n.signs.emptySet
  else return Text.join n.signs.and (← cs.mapM fun c => return "(" ++ (← c.render n) ++ ")")

def tableLabel (n : Notation) (i : Nat) : String :=
  match n with
  | .latex => "C_\x7b" ++ toString i ++ "\x7d"
  | .text => "C" ++ toString i

def tableRow (n : Notation) (i : Nat) (c : Clause) (kind : String) : Except Obstacle String :=
  return tableLabel n i ++ ": (" ++ (← c.render n) ++ ")" ++ n.signs.implies ++ n.prose kind

def tableRows (n : Notation) : (i : Nat) → List Clause → List String → Except Obstacle (List String)
  | i, c :: cs, kind :: kinds => return (← tableRow n i c kind) :: (← tableRows n (i + 1) cs kinds)
  | _, _, _ => return []

def table (n : Notation) (cs : List Clause) (kinds : List String) : Except Obstacle String :=
  return Text.join n.signs.betweenLines (← tableRows n 1 cs kinds)

end Clause

end Clausification
