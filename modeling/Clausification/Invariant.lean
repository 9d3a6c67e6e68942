import Clausification.Formula.Symbols
import Clausification.Obstacle
import Clausification.Text.Quoted

/-!
# Invariants

What each form of a formula promises, as a check that lists the violations. `path` names the step
after which the check is made.
-/

namespace Clausification.Invariant

def implicationFree (path : String) (f : Formula) : List Issue :=
  let n := f.subformulas.countP fun g => g.kind = .binary .implies ∨ g.kind = .binary .iff
  if n = 0 then []
  else [{
    code := "IMPLICATION_LEFT", path
    text := toString n ++ " implication/biconditional node(s) remain" }]

def negatedConnective (path : String) : Formula → Option Issue
  | .not (.atom _) => none
  | .not g => some {
    code := "NEGATED_CONNECTIVE", path
    text := "negation wraps a " ++ g.kind.name ++ " node" }
  | _ => none

def negationNormal (path : String) (f : Formula) : List Issue :=
  f.subformulas.filterMap (negatedConnective path) ++ implicationFree path f

def distinctBinders (path : String) (f : Formula) : List Issue :=
  let repeated := f.binders.filter fun x => 1 < f.binders.count x
  (sortedNames repeated).map fun x =>
    { code := "DUPLICATE_BINDER", path
      text := "variable " ++ Text.quoted x ++ " is bound more than once" }

def behindPrefix : Formula → Formula
  | .quant _ _ f => behindPrefix f
  | f => f

def prenex (path : String) (f : Formula) : List Issue :=
  if (behindPrefix f).subformulas.any (·.isQuant) then
    [{ code := "QUANTIFIER_IN_MATRIX", path, text := "quantifier found below the prefix" }]
  else []

/-- No quantifier is left, and no function symbol is one of the names that are not to be used. -/
def skolemized (used : List String) (path : String) (f : Formula) : List Issue :=
  let left : List Issue :=
    if f.subformulas.any (·.isQuant) then
      [{ code := "QUANTIFIER_LEFT", path, text := "quantifier node remains after Skolemization" }]
    else []
  let clashes := sortedNames (f.functionSymbols.filter (· ∈ used))
  left ++ clashes.map fun g =>
    { code := "SKOLEM_CLASH", path
      text := "Skolem symbol " ++ Text.quoted g ++ " also appears in the input" }

/-- Whether a node is built by `upper` directly over a node built by `lower`. -/
def wraps (upper lower : Connective) : Formula → Bool
  | .binary c l r => c = upper ∧ (l.kind = .binary lower ∨ r.kind = .binary lower)
  | _ => false

def conjunctive (path : String) (f : Formula) : List Issue :=
  if f.subformulas.any (wraps .or .and) then
    [{ code := "CONJUNCTION_UNDER_DISJUNCTION", path
       text := "a disjunction has a conjunction operand" }]
  else []

def disjunctive (path : String) (f : Formula) : List Issue :=
  if f.subformulas.any (wraps .and .or) then
    [{ code := "DISJUNCTION_UNDER_CONJUNCTION", path
       text := "a conjunction has a disjunction operand" }]
  else []

end Clausification.Invariant
