import Clausification.Formula.Walk
import Clausification.Obstacle

/-!
# Implication-free form

`A → B` becomes `¬A ∨ B`, and `A ↔ B` becomes the conjunction of both implications, each written as
a disjunction.
-/

namespace Clausification.Formula

def implicationFreeNode : Formula → List Formula → Except Obstacle Formula
  | binary .implies _ _, [l, r] => .ok (or (not l) r)
  | binary .iff _ _, [l, r] => .ok (and (or (not l) r) (or (not r) l))
  | binary c _ _, [l, r] => .ok (binary c l r)
  | not _, [f] => .ok (not f)
  | quant q x _, [f] => .ok (quant q x f)
  | atom a, _ => .ok (atom a)
  | f, _ => .error (.node .elimination f.kind)

def implicationFree (f : Formula) : Except Obstacle Formula := fold implicationFreeNode f

end Clausification.Formula
