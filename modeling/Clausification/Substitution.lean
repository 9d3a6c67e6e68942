import Clausification.Formula.Walk
import Clausification.Obstacle

/-!
# Substitution

Terms for free variables, all at once. A quantifier hides its variable from its body. Nothing is
renamed, so a variable of an inserted term may be captured.
-/

namespace Clausification

/-- Terms for names. The first entry of a name counts. -/
abbrev Substitution := List (String × Term)

namespace Substitution

def get (σ : Substitution) (x : String) : Term := (σ.lookup x).getD (.var x)

def hide (σ : Substitution) (x : String) : Substitution := σ.filter (·.1 ≠ x)

@[simp] theorem get_nil (x : String) : get [] x = .var x := rfl

@[simp] theorem hide_nil (x : String) : hide [] x = [] := rfl

end Substitution

mutual

def Term.replace (σ : Substitution) : Term → Term
  | .var x => σ.get x
  | .app f ts => .app f (Term.replaceAll σ ts)
  | .stray p ts => .stray p ts

def Term.replaceAll (σ : Substitution) : List Term → List Term
  | [] => []
  | t :: ts => t.replace σ :: Term.replaceAll σ ts

end

theorem Term.replaceAll_eq_map (σ : Substitution) (ts : List Term) :
    Term.replaceAll σ ts = ts.map (Term.replace σ) := by
  induction ts with
  | nil => rfl
  | cons t ts ih => simp [Term.replaceAll, ih]

def Term.substitute (σ : Substitution) (t : Term) : Except Obstacle Term :=
  if t.wellFormed then .ok (t.replace σ) else .error (.strayAtom .substitution)

/-- Replace the variables of an atom. The arguments are looked at only if there is something to
replace. -/
def Atom.substitute (σ : Substitution) (a : Atom) : Except Obstacle Atom :=
  if σ.isEmpty then .ok a
  else if a.wellFormed then .ok { a with args := Term.replaceAll σ a.args }
  else .error (.strayAtom .substitution)

namespace Formula

def hideBound (σ : Substitution) : Formula → Substitution
  | quant _ x _ => σ.hide x
  | _ => σ

def substituteNode (σ : Substitution) : Formula → List Formula → Except Obstacle Formula
  | atom a, _ => (a.substitute σ).map atom
  | not _, [f] => .ok (not f)
  | binary c _ _, [l, r] => .ok (binary c l r)
  | quant q x _, [f] => .ok (quant q x f)
  | f, _ => .error (.node .substitution f.kind)

def substitute (σ : Substitution) (f : Formula) : Except Obstacle Formula :=
  if σ.isEmpty then .ok f
  else
    walk .everywhere (fun g results σ => substituteNode σ g results)
      (fun g σ => pure (hideBound σ g)) σ f

end Formula

end Clausification
