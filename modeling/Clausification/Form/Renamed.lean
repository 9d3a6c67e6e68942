import Clausification.Names
import Clausification.Substitution

/-!
# Renamed form

Every quantifier gets a variable of its own. Binders are named in pre-order, and the variable that
a binder gets follows into its body; an inner binder of the same name hides the outer one.
-/

namespace Clausification.Formula

def enterBinder (f : Formula) (σ : Substitution) : Naming Obstacle Substitution :=
  match f with
  | quant _ x _ => do
    let y ← modifyGet (Names.freshVariable x)
    return (x, .var y) :: σ
  | _ => return σ

def renamedNode (f : Formula) (results : List Formula) (σ : Substitution) :
    Naming Obstacle Formula :=
  match f, results with
  | quant q x _, [body] => return quant q (σ.get x).name body
  | binary c _ _, [l, r] => return binary c l r
  | not _, [g] => return not g
  | atom a, _ => ExceptT.mk (pure ((a.substitute σ).map atom))
  | f, _ => throw (.node .alphaConversion f.kind)

def rename (f : Formula) : Naming Obstacle Formula := walk .everywhere renamedNode enterBinder [] f

end Clausification.Formula
