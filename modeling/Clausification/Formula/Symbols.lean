import Clausification.Formula.Basic

/-!
# The symbols of a formula

Every name that a formula uses, and the function symbols in the order in which they first occur.
-/

namespace Clausification

mutual

/-- The names in a term. An atom standing among terms shows its predicate only. -/
def Term.symbols : Term → List String
  | .var x => [x]
  | .app f ts => f :: Term.symbolsOfAll ts
  | .stray p _ => [p]

def Term.symbolsOfAll : List Term → List String
  | [] => []
  | t :: ts => t.symbols ++ Term.symbolsOfAll ts

end

mutual

def Term.functions : Term → List String
  | .app f ts => f :: Term.functionsOfAll ts
  | .var _ | .stray .. => []

def Term.functionsOfAll : List Term → List String
  | [] => []
  | t :: ts => t.functions ++ Term.functionsOfAll ts

end

def Atom.symbols (a : Atom) : List String := a.predicate :: Term.symbolsOfAll a.args

namespace Formula

/-- Every name in a formula: predicates, functions, free variables and binders. A term that stands
where a formula is expected adds none. -/
def symbols : Formula → List String
  | atom a => a.symbols
  | not f => f.symbols
  | binary _ l r => l.symbols ++ r.symbols
  | quant _ x f => x :: f.symbols
  | term _ => []

def functionSymbols (f : Formula) : List String :=
  (f.subformulas.flatMap fun
    | atom a => Term.functionsOfAll a.args
    | _ => []).eraseDups

def binders : Formula → List String
  | atom _ | term _ => []
  | not f => f.binders
  | binary _ l r => l.binders ++ r.binders
  | quant _ x f => x :: f.binders

end Formula

def sortedNames (names : List String) : List String :=
  (names.mergeSort (fun a b => decide (a ≤ b))).eraseReps

end Clausification
