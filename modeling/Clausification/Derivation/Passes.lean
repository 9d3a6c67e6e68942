import Clausification.Clause.Basic
import Clausification.Form.Distributed
import Clausification.Form.ImplicationFree
import Clausification.Form.NegationNormal
import Clausification.Form.Renamed
import Clausification.Form.Skolem
import Clausification.Invariant

/-!
# The stages of a derivation

Six stages lead from a formula to its conjunctive normal form. Each has a transformation and a check
of what the transformation promises; both are values, so that a derivation can be run with others.
-/

namespace Clausification

inductive Stage where
  | implicationFree
  | negationNormal
  | renamed
  | prenex
  | skolem
  | conjunctive
deriving DecidableEq, Inhabited

namespace Stage

def all : List Stage := [implicationFree, negationNormal, renamed, prenex, skolem, conjunctive]

def key : Stage → String
  | implicationFree => "no_implications"
  | negationNormal => "nnf"
  | renamed => "renamed"
  | prenex => "prenex"
  | skolem => "skolem"
  | conjunctive => "cnf"

def label : Stage → String
  | implicationFree => "Eliminate → and ↔ (implications/equivalences)"
  | negationNormal => "NNF: negation normal form"
  | renamed => "Rename bound variables (alpha-conversion)"
  | prenex => "Prenex form (quantifiers in front)"
  | skolem => "Skolemization (replace ∃ by functions/constants)"
  | conjunctive => "CNF: conjunctive normal form"

end Stage

structure Passes where
  implicationFree : Formula → Except Obstacle Formula := Formula.implicationFree
  negationNormal : Formula → Except Obstacle Formula := Formula.negationNormal
  rename : Formula → Naming Obstacle Formula := Formula.rename
  prenex : Formula → Except Obstacle Formula := Formula.prenex
  skolemize : Formula → Naming Obstacle Formula := Formula.skolemize
  conjunctive : Formula → Except Obstacle Formula := Formula.conjunctive
  clauses : Formula → Except Obstacle (List Clause) := Formula.clauses
  disjunctive : Formula → Except Obstacle Formula := Formula.disjunctive

/-- The checks of a derivation. The one of the Skolem form knows the names of the input. -/
structure Checks where
  implicationFree : Formula → List Issue := Invariant.implicationFree "no_implications"
  negationNormal : Formula → List Issue := Invariant.negationNormal "nnf"
  renamed : Formula → List Issue := Invariant.distinctBinders "renamed"
  prenex : Formula → List Issue := Invariant.prenex "prenex"
  skolem : (used : List String) → Formula → List Issue :=
    fun used => Invariant.skolemized used "skolem"
  conjunctive : Formula → List Issue := Invariant.conjunctive "cnf"
  disjunctive : Formula → List Issue := Invariant.disjunctive "dnf"

def Naming.ofExcept {ε α : Type} (x : Except ε α) : Naming ε α := ExceptT.mk (pure x)

def Passes.run (p : Passes) : Stage → Formula → Naming Obstacle Formula
  | .implicationFree, f => .ofExcept (p.implicationFree f)
  | .negationNormal, f => .ofExcept (p.negationNormal f)
  | .renamed, f => p.rename f
  | .prenex, f => .ofExcept (p.prenex f)
  | .skolem, f => p.skolemize f
  | .conjunctive, f => .ofExcept (p.conjunctive f)

def Checks.run (c : Checks) (used : List String) : Stage → Formula → List Issue
  | .implicationFree => c.implicationFree
  | .negationNormal => c.negationNormal
  | .renamed => c.renamed
  | .prenex => c.prenex
  | .skolem => c.skolem used
  | .conjunctive => c.conjunctive

/-- A formula that passes its check. The first issue stops the derivation. -/
def verified (issues : List Issue) (f : Formula) : Except Obstacle Formula :=
  match issues with
  | [] => .ok f
  | issue :: _ => .error (.violation issue)

def runStage (p : Passes) (c : Checks) (check : Bool) (used : List String) (stage : Stage)
    (f : Formula) : Naming Obstacle Formula := do
  let g ← p.run stage f
  if check then .ofExcept (verified (c.run used stage g) g) else return g

end Clausification
