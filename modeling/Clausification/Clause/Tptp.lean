import Clausification.Clause.Basic
import Clausification.Text.Blank
import Clausification.Text.Pieces

/-!
# Clauses as TPTP

Each clause is one `cnf` line. Names are made into words of that format: predicates and functions
begin with a lower-case letter, variables with an upper-case one.
-/

namespace Clausification.Tptp

def isWordPart (c : Char) : Bool := c.isAlphanum || c == '_'

/-- A name without the blanks at its ends and with an underscore for each character that no word
can hold; an empty name becomes `x`. -/
def sanitize (s : String) : List Char :=
  match (Text.stripList s.toList).map fun c => if isWordPart c then c else '_' with
  | [] => ['x']
  | cs => cs

def lowerWord (s : String) : String :=
  match sanitize s with
  | [] => ""
  | c :: cs => String.ofList (if c.isAlpha then c.toLower :: cs else 's' :: c :: cs)

def upperWord (s : String) : String :=
  match sanitize s with
  | [] => ""
  | c :: cs => String.ofList (if c.isAlpha then c.toUpper :: cs else 'V' :: c :: cs)

def applied (word : String) (args : List String) : String :=
  if args.isEmpty then word else word ++ "(" ++ Text.join "," args ++ ")"

mutual

/-- A term. Of an atom standing among terms only the predicate is shown. -/
def term : Term → String
  | .var x => upperWord x
  | .app f ts => applied (lowerWord f) (terms ts)
  | .stray p _ => lowerWord p

def terms : List Term → List String
  | [] => []
  | t :: ts => term t :: terms ts

end

def atom (a : Atom) : String := applied (lowerWord a.predicate) (terms a.args)

def literal (l : Literal) : String := if l.positive then atom l.atom else "~" ++ atom l.atom

def clause (c : Clause) : String :=
  if c.isEmpty then "$false" else Text.join " | " (c.map literal)

def line (name role : String) (c : Clause) : String :=
  "cnf(" ++ String.ofList (sanitize name) ++ ", " ++ role ++ ", (" ++ clause c ++ "))."

def lines (letter : String) (cs : List Clause) : List String :=
  cs.mapIdx fun i c => line (letter ++ toString (i + 1)) "axiom" c

theorem terms_eq_map (ts : List Term) : terms ts = ts.map term := by
  induction ts with
  | nil => rfl
  | cons t ts ih => simp [terms, ih]

theorem sanitize_ne_nil (s : String) : sanitize s ≠ [] := by
  unfold sanitize
  split
  · simp
  · assumption

@[simp] theorem length_lines (letter : String) (cs : List Clause) :
    (lines letter cs).length = cs.length := by
  simp [lines]

end Clausification.Tptp
