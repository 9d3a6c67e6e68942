import Clausification.Clause.Basic

/-!
# Horn clauses

Clauses by the number of their positive and negative literals. A Horn clause has at most one
positive literal.
-/

namespace Clausification

inductive ClauseKind where
  | fact
  | rule
  | goal
  | notHorn
deriving DecidableEq, Inhabited

def ClauseKind.name : ClauseKind → String
  | fact => "fact"
  | rule => "rule"
  | goal => "goal"
  | notHorn => "not-horn"

def ClauseKind.ofName? (s : String) : Option ClauseKind :=
  [fact, rule, goal, notHorn].find? (·.name == s)

namespace Clause

def positives (c : Clause) : Nat := c.countP (·.positive)

def negatives (c : Clause) : Nat := c.length - c.positives

def isHorn (c : Clause) : Bool := c.positives ≤ 1

def kind (c : Clause) : ClauseKind :=
  match c.positives with
  | 0 => .goal
  | 1 => if c.negatives = 0 then .fact else .rule
  | _ => .notHorn

@[simp] theorem positives_nil : positives [] = 0 := rfl

end Clause

def allHorn (kinds : List ClauseKind) : Bool := kinds.all (· ≠ .notHorn)

end Clausification
