import Clausification.Formula.Walk
import Clausification.Obstacle

/-!
# Prenex form

All quantifiers in front. Binders keep their order of appearance, those of a left operand before
those of the right one; the formula must be in negation normal form, with all binders different.
-/

namespace Clausification

/-- Quantifiers in front of a formula, outermost first. -/
abbrev Prefix := List (Quantifier × String)

structure Prenex where
  quantifiers : Prefix := []
  matrix : Formula
deriving DecidableEq, Inhabited

def Prenex.formula (p : Prenex) : Formula :=
  p.quantifiers.foldr (fun (q, x) f => .quant q x f) p.matrix

namespace Formula

def prenexNode : Formula → List Prenex → Except Obstacle Prenex
  | quant q x _, [p] => .ok { p with quantifiers := (q, x) :: p.quantifiers }
  | binary .and _ _, [l, r] => .ok ⟨l.quantifiers ++ r.quantifiers, and l.matrix r.matrix⟩
  | binary .or _ _, [l, r] => .ok ⟨l.quantifiers ++ r.quantifiers, or l.matrix r.matrix⟩
  | not _, [p] => .ok { p with matrix := not p.matrix }
  | atom a, _ => .ok ⟨[], atom a⟩
  | f, _ => .error (.node .prenexing f.kind)

def pullQuantifiers (f : Formula) : Except Obstacle Prenex := fold prenexNode f

def splitPrefix : Formula → Prenex
  | quant q x f =>
    let p := f.splitPrefix
    { p with quantifiers := (q, x) :: p.quantifiers }
  | f => ⟨[], f⟩

def prenex (f : Formula) : Except Obstacle Formula := f.pullQuantifiers.map (·.formula)

end Formula

@[simp] theorem Prenex.formula_nil (f : Formula) : Prenex.formula ⟨[], f⟩ = f := rfl

@[simp] theorem Prenex.formula_cons (q : Quantifier) (x : String) (qs : Prefix) (f : Formula) :
    Prenex.formula ⟨(q, x) :: qs, f⟩ = .quant q x (Prenex.formula ⟨qs, f⟩) := rfl

end Clausification
