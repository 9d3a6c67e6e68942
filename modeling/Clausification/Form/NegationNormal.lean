import Clausification.Formula.Walk
import Clausification.Obstacle

/-!
# Negation normal form

Negations move down to the atoms. For each node two forms are built at once, its own and that of
its negation, so every node is visited once. The formula must be free of implications.
-/

namespace Clausification

/-- The negation normal forms of a formula and of its negation. -/
structure Polarized where
  positive : Formula
  negative : Formula
deriving DecidableEq, Inhabited

namespace Formula

def polarizedNode : Formula → List Polarized → Except Obstacle Polarized
  | atom a, _ => .ok ⟨atom a, not (atom a)⟩
  | not _, [p] => .ok ⟨p.negative, p.positive⟩
  | binary .and _ _, [l, r] => .ok ⟨and l.positive r.positive, or l.negative r.negative⟩
  | binary .or _ _, [l, r] => .ok ⟨or l.positive r.positive, and l.negative r.negative⟩
  | quant q x _, [p] => .ok ⟨quant q x p.positive, quant q.dual x p.negative⟩
  | f, _ => .error (.node .negationNormal f.kind)

def polarized (f : Formula) : Except Obstacle Polarized := fold polarizedNode f

def negationNormal (f : Formula) : Except Obstacle Formula := f.polarized.map (·.positive)

end Formula

end Clausification
