import Clausification.Formula.Walk
import Clausification.Obstacle

/-!
# Conjunctive and disjunctive normal form

One connective is distributed over the other. Nothing is simplified, so the result can be
exponentially larger than the formula.
-/

namespace Clausification.Formula

def graftNode (outer : Connective) (leaf : Formula → Formula) : Formula → List Formula → Formula
  | binary c l r, [l', r'] => if c = outer then binary outer l' r' else leaf (binary c l r)
  | f, _ => leaf f

/-- Keep the part of a formula that is built by `outer`, and replace each operand below it. -/
def graft (outer : Connective) (leaf : Formula → Formula) (f : Formula) : Formula :=
  Id.run (walk (.through outer) (fun g results (_ : Unit) => pure (graftNode outer leaf g results))
    (fun _ => pure) () f)

/-- Join two formulas by `inner`, every `outer` operand of the first with every one of the
second. -/
def pairUp (outer inner : Connective) (l r : Formula) : Formula :=
  graft outer (fun x => graft outer (fun y => binary inner x y) r) l

def distributeNode (pass : Pass) (outer inner : Connective) :
    Formula → List Formula → Except Obstacle Formula
  | binary c g h, [l, r] =>
    if c = outer then .ok (binary outer l r)
    else if c = inner then .ok (pairUp outer inner l r)
    else .error (.node pass (binary c g h).kind)
  | not _, [f] => .ok (not f)
  | atom a, _ => .ok (atom a)
  | f, _ => .error (.node pass f.kind)

def distribute (pass : Pass) (outer inner : Connective) (f : Formula) : Except Obstacle Formula :=
  fold (distributeNode pass outer inner) f

def conjunctive (f : Formula) : Except Obstacle Formula := distribute .conjunctive .and .or f

def disjunctive (f : Formula) : Except Obstacle Formula := distribute .disjunctive .or .and f

end Clausification.Formula
