import Clausification.Form.Prenex
import Clausification.Names
import Clausification.Substitution

/-!
# Skolem form

The quantifier prefix is dropped. An existential variable is replaced by a fresh constant if no
universal one stands before it, and otherwise by a fresh function of all those that do. The
universal variables stay, free, in the matrix.
-/

namespace Clausification

def skolemConstantLetter : String := "c"

def skolemFunctionLetter : String := "f"

def skolemTerm (universals : List String) (names : Names) : Term × Names :=
  let letter := if universals.isEmpty then skolemConstantLetter else skolemFunctionLetter
  let (f, names) := names.freshSkolem letter
  (.app f (universals.map .var), names)

/-- The terms for the existential variables of a prefix. A later binder of a name counts before an
earlier one. -/
def skolemTerms : Prefix → (universals : List String) → Substitution → Names → Substitution × Names
  | [], _, σ, names => (σ, names)
  | (.all, x) :: qs, universals, σ, names => skolemTerms qs (universals ++ [x]) σ names
  | (.ex, x) :: qs, universals, σ, names =>
    let (t, names) := skolemTerm universals names
    skolemTerms qs universals ((x, t) :: σ) names

def Formula.skolemize (f : Formula) : Naming Obstacle Formula := do
  let p := f.splitPrefix
  let σ ← modifyGet (skolemTerms p.quantifiers [] [])
  ExceptT.mk (pure (p.matrix.substitute σ))

end Clausification
