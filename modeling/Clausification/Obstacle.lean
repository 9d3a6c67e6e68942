import Clausification.Formula.Basic

/-!
# Obstacles

Why a transformation of a formula stops: a node that it does not accept, an atom among terms, or a
violated invariant of the form it was to produce.
-/

namespace Clausification

inductive Pass where
  | elimination
  | negationNormal
  | alphaConversion
  | prenexing
  | skolemization
  | conjunctive
  | disjunctive
  | substitution
  | extraction
  | rendering
deriving DecidableEq, Inhabited

def Pass.name : Pass → String
  | elimination => "eliminate_implications"
  | negationNormal => "to_nnf"
  | alphaConversion => "rename_bound_variables"
  | prenexing => "to_prenex"
  | skolemization => "skolemize"
  | conjunctive => "to_cnf"
  | disjunctive => "to_dnf"
  | substitution => "substitute"
  | extraction => "extract_clauses"
  | rendering => "render"

/-- One violation of an invariant: a code, the step after which it was found, and a text. -/
structure Issue where
  code : String
  path : String
  text : String
  severity : String := "error"
deriving DecidableEq, Inhabited

inductive Obstacle where
  | node (pass : Pass) (kind : Kind)
  | strayAtom (pass : Pass)
  | violation (issue : Issue)
  /-- A failure of a pass that was supplied from outside, with its own words. -/
  | reported (stage text : String)
deriving DecidableEq, Inhabited

namespace Obstacle

def stage : Obstacle → String
  | node pass _ => pass.name
  | strayAtom pass => pass.name
  | violation issue => issue.path
  | reported stage _ => stage

def nodeText (pass : Pass) (kind : Kind) : String :=
  match pass with
  | .negationNormal => kind.name ++ " node left in formula; eliminate implications first"
  | .prenexing => kind.name ++ " node left in formula"
  | .conjunctive | .disjunctive => kind.name ++ " node left in matrix"
  | .extraction => kind.name ++ " node inside a clause is not a literal"
  | _ => "unknown node " ++ kind.name

def text : Obstacle → String
  | node pass kind => nodeText pass kind
  | strayAtom _ => "unknown term " ++ Kind.atom.name
  | violation issue => "[" ++ issue.code ++ "] " ++ issue.text
  | reported _ text => text

def message (o : Obstacle) : String := o.stage ++ ": " ++ o.text

end Obstacle

end Clausification
