import Clausification.Formula.Basic
import Clausification.Obstacle

/-!
# Clauses

A clause is a list of literals, read as their disjunction; a list of clauses is read as their
conjunction. A formula in conjunctive normal form is taken apart into clauses as it stands: order
and repetitions are kept.
-/

namespace Clausification

structure Literal where
  positive : Bool
  atom : Atom
deriving DecidableEq, Inhabited

abbrev Clause := List Literal

namespace Formula

/-- The operands of a chain of one connective, left to right, however it is nested. `pending` holds
the formulas still to be taken apart, the next one first. -/
def operandsOf (c : Connective) (pending : List Formula) : List Formula :=
  match pending with
  | [] => []
  | f :: pending =>
    match f with
    | binary c' l r =>
      if c' = c then operandsOf c (l :: r :: pending)
      else binary c' l r :: operandsOf c pending
    | f => f :: operandsOf c pending
termination_by total (pending.map size)
decreasing_by
  · simp only [List.map_cons, total_cons, size]; omega
  · simp only [List.map_cons, total_cons, size]; omega
  · have : 0 < f.size := by cases f <;> simp [size]
    simp only [List.map_cons, total_cons]; omega

def operands (c : Connective) (f : Formula) : List Formula := operandsOf c [f]

def literal : Formula → Except Obstacle Literal
  | atom a => .ok ⟨true, a⟩
  | not (atom a) => .ok ⟨false, a⟩
  | f => .error (.node .extraction f.kind)

def clause (f : Formula) : Except Obstacle Clause := (f.operands .or).mapM literal

def clauses (f : Formula) : Except Obstacle (List Clause) := (f.operands .and).mapM clause

end Formula

end Clausification
