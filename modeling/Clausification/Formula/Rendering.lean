import Clausification.Formula.Reader
import Clausification.Formula.Walk
import Clausification.Notation

/-!
# Writing formulas

An operand that is a binary connective is put in parentheses; negations, quantifiers and atoms stand
as they are.
-/

namespace Clausification

mutual

def Term.render (n : Notation) : Term → String
  | .var x => x
  | .app f [] => f
  | .app f (t :: ts) =>
    f ++ "(" ++ Text.join n.signs.betweenArguments (Term.renderAll n (t :: ts)) ++ ")"
  | .stray p _ => p

def Term.renderAll (n : Notation) : List Term → List String
  | [] => []
  | t :: ts => t.render n :: Term.renderAll n ts

end

theorem Term.renderAll_eq_map (n : Notation) (ts : List Term) :
    Term.renderAll n ts = ts.map (Term.render n) := by
  induction ts with
  | nil => rfl
  | cons t ts ih => simp [Term.renderAll, ih]

def Term.render? (n : Notation) (t : Term) : Except Obstacle String :=
  if t.wellFormed then .ok (t.render n) else .error (.strayAtom .rendering)

def Atom.text (n : Notation) (a : Atom) : String :=
  if a.args.isEmpty then a.predicate
  else a.predicate ++ "(" ++ Text.join n.signs.betweenArguments (Term.renderAll n a.args) ++ ")"

def Atom.render (n : Notation) (a : Atom) : Except Obstacle String :=
  if a.wellFormed then .ok (a.text n) else .error (.strayAtom .rendering)

namespace Formula

/-- The writing `s` of an operand, in parentheses if its main connective is binary. -/
def grouped (f : Formula) (s : String) : String := if f.isBinary then "(" ++ s ++ ")" else s

def renderNode (n : Notation) : Formula → List String → Except Obstacle String
  | atom a, _ => a.render n
  | not f, [s] => .ok (n.signs.neg ++ f.grouped s)
  | binary c l r, [s, t] => .ok (l.grouped s ++ n.signs.connective c ++ r.grouped t)
  | quant q x f, [s] => .ok (n.signs.quantifier q ++ x ++ n.signs.afterVariable ++ f.grouped s)
  | f, _ => .error (.node .rendering f.kind)

def render (n : Notation) (f : Formula) : Except Obstacle String := fold (renderNode n) f

end Formula

end Clausification
