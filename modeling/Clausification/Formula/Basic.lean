/-!
# First-order formulas

Terms, atoms and formulas over names that are arbitrary texts. The types leave room for two
misplacements, an atom where a term is expected and a term where a formula is expected: no
transformation accepts them, and `Formula.wellFormed` is the predicate that rules them out.
-/

namespace Clausification

/-- A term is a variable or a function symbol with its arguments; a constant has none. -/
inductive Term where
  | var (name : String)
  | app (symbol : String) (args : List Term)
  /-- A predicate and its arguments, standing where a term is expected. -/
  | stray (predicate : String) (args : List Term)
deriving Inhabited

mutual

def Term.decEq : (s t : Term) → Decidable (s = t)
  | .var x, .var y => if h : x = y then isTrue (h ▸ rfl) else isFalse (by simp [h])
  | .app f ss, .app g ts =>
    if h : f = g then
      match Term.decEqAll ss ts with
      | isTrue e => isTrue (by rw [h, e])
      | isFalse e => isFalse (by simp [e])
    else isFalse (by simp [h])
  | .stray p ss, .stray q ts =>
    if h : p = q then
      match Term.decEqAll ss ts with
      | isTrue e => isTrue (by rw [h, e])
      | isFalse e => isFalse (by simp [e])
    else isFalse (by simp [h])
  | .var _, .app .. | .var _, .stray .. | .app .., .var _ | .app .., .stray ..
  | .stray .., .var _ | .stray .., .app .. => isFalse (by simp)

def Term.decEqAll : (ss ts : List Term) → Decidable (ss = ts)
  | [], [] => isTrue rfl
  | s :: ss, t :: ts =>
    match Term.decEq s t, Term.decEqAll ss ts with
    | isTrue h, isTrue e => isTrue (by rw [h, e])
    | isFalse h, _ => isFalse (by simp [h])
    | _, isFalse e => isFalse (by simp [e])
  | [], _ :: _ | _ :: _, [] => isFalse (by simp)

end

instance : DecidableEq Term := Term.decEq

structure Atom where
  predicate : String
  args : List Term := []
deriving DecidableEq, Inhabited

inductive Connective where
  | and
  | or
  | implies
  | iff
deriving DecidableEq, Inhabited

inductive Quantifier where
  | all
  | ex
deriving DecidableEq, Inhabited

inductive Formula where
  | atom (a : Atom)
  | not (f : Formula)
  | binary (c : Connective) (left right : Formula)
  | quant (q : Quantifier) (x : String) (body : Formula)
  /-- A term standing where a formula is expected. -/
  | term (t : Term)
deriving DecidableEq, Inhabited

inductive Kind where
  | var
  | app
  | atom
  | not
  | binary (c : Connective)
  | quant (q : Quantifier)
deriving DecidableEq, Inhabited

namespace Connective

/-- Negation exchanges conjunction and disjunction; the other connectives have no dual. -/
def dual : Connective → Connective
  | and => or
  | or => and
  | c => c

@[simp] theorem dual_dual (c : Connective) : c.dual.dual = c := by cases c <;> rfl

def name : Connective → String
  | and => "And"
  | or => "Or"
  | implies => "Implies"
  | iff => "Iff"

end Connective

namespace Quantifier

def dual : Quantifier → Quantifier
  | all => ex
  | ex => all

@[simp] theorem dual_dual (q : Quantifier) : q.dual.dual = q := by cases q <;> rfl

def name : Quantifier → String
  | all => "Forall"
  | ex => "Exists"

end Quantifier

def Kind.name : Kind → String
  | var => "Var"
  | app => "Func"
  | atom => "Pred"
  | not => "Not"
  | binary c => c.name
  | quant q => q.name

namespace Term

def kind : Term → Kind
  | var _ => .var
  | app .. => .app
  | stray .. => .atom

def name : Term → String
  | var x => x
  | app f _ => f
  | stray p _ => p

mutual

/-- No atom stands where a term is expected. -/
def wellFormed : Term → Bool
  | var _ => true
  | app _ ts => allWellFormed ts
  | stray .. => false

def allWellFormed : List Term → Bool
  | [] => true
  | t :: ts => wellFormed t && allWellFormed ts

end

theorem allWellFormed_eq_all (ts : List Term) : allWellFormed ts = ts.all wellFormed := by
  induction ts with
  | nil => rfl
  | cons t ts ih => simp [allWellFormed, ih]

end Term

def Atom.wellFormed (a : Atom) : Bool := Term.allWellFormed a.args

namespace Formula

abbrev and (l r : Formula) : Formula := binary .and l r
abbrev or (l r : Formula) : Formula := binary .or l r
abbrev implies (l r : Formula) : Formula := binary .implies l r
abbrev iff (l r : Formula) : Formula := binary .iff l r
abbrev all (x : String) (body : Formula) : Formula := quant .all x body
abbrev ex (x : String) (body : Formula) : Formula := quant .ex x body

def kind : Formula → Kind
  | atom _ => .atom
  | not _ => .not
  | binary c .. => .binary c
  | quant q .. => .quant q
  | term t => t.kind

def children : Formula → List Formula
  | not f => [f]
  | binary _ l r => [l, r]
  | quant _ _ f => [f]
  | atom _ | term _ => []

def size : Formula → Nat
  | atom _ | term _ => 1
  | not f => f.size + 1
  | binary _ l r => l.size + r.size + 1
  | quant _ _ f => f.size + 1

def total (sizes : List Nat) : Nat := sizes.foldr Nat.add 0

@[simp] theorem total_nil : total [] = 0 := rfl

@[simp] theorem total_cons (n : Nat) (ns : List Nat) : total (n :: ns) = n + total ns := rfl

@[simp] theorem total_append (ms ns : List Nat) : total (ms ++ ns) = total ms + total ns := by
  induction ms with
  | nil => simp
  | cons m ms ih => rw [List.cons_append, total_cons, total_cons, ih, Nat.add_assoc]

theorem size_lt_of_mem_children {f k : Formula} (h : k ∈ f.children) : k.size < f.size := by
  cases f <;> simp only [children, List.mem_cons, List.not_mem_nil, or_false] at h
  case not => subst h; simp [size]
  case binary => rcases h with rfl | rfl <;> simp only [size] <;> omega
  case quant => subst h; simp [size]

def subformulas : Formula → List Formula
  | atom a => [atom a]
  | term t => [term t]
  | not f => not f :: f.subformulas
  | binary c l r => binary c l r :: (l.subformulas ++ r.subformulas)
  | quant q x f => quant q x f :: f.subformulas

/-- Every atom and every term stands in its place. -/
def wellFormed : Formula → Bool
  | atom a => a.wellFormed
  | not f => f.wellFormed
  | binary _ l r => l.wellFormed && r.wellFormed
  | quant _ _ f => f.wellFormed
  | term _ => false

def isLiteral : Formula → Bool
  | atom _ => true
  | not (atom _) => true
  | _ => false

def isBinary : Formula → Bool
  | binary .. => true
  | _ => false

def isQuant : Formula → Bool
  | quant .. => true
  | _ => false

end Formula

end Clausification
