import Clausification.Formula.Symbols

/-!
# Fresh names

A source of names for one derivation. It holds every name already taken and two counters, one for
renamed variables and one for Skolem symbols, and never hands out a name twice.
-/

namespace Clausification

/-- The names that are taken, and how far each counter has advanced. -/
structure Names where
  taken : List String := []
  renamed : Int := 0
  skolems : Int := 0
deriving DecidableEq, Inhabited

namespace Names

def ofFormula (f : Formula) : Names := { taken := f.symbols }

/-- The first number from `n` on whose spelling is not to be avoided. Different numbers have
different spellings, so a spelling that has been met need not be avoided any more. -/
def firstFree (spell : Int → String) (avoid : List String) (n : Int) : Int :=
  if spell n ∈ avoid then firstFree spell (avoid.erase (spell n)) (n + 1) else n
termination_by avoid.length
decreasing_by
  rename_i h
  rw [List.length_erase_of_mem h]
  have := List.length_pos_of_mem h
  omega

def variableName (base : String) (n : Int) : String := base ++ "_" ++ toString n

def skolemName (base : String) (n : Int) : String := base ++ toString n

def freshVariable (base : String) (names : Names) : String × Names :=
  let n := firstFree (variableName base) names.taken (names.renamed + 1)
  let x := variableName base n
  (x, { names with taken := x :: names.taken, renamed := n })

def freshSkolem (base : String) (names : Names) : String × Names :=
  let n := firstFree (skolemName base) names.taken (names.skolems + 1)
  let f := skolemName base n
  (f, { names with taken := f :: names.taken, skolems := n })

@[simp] theorem firstFree_nil (spell : Int → String) (n : Int) : firstFree spell [] n = n := by
  simp [firstFree]

theorem le_firstFree (spell : Int → String) (avoid : List String) (n : Int) :
    n ≤ firstFree spell avoid n := by
  fun_induction firstFree spell avoid n with
  | case1 avoid n h ih => omega
  | case2 => omega

@[simp] theorem skolems_freshVariable (base : String) (names : Names) :
    (freshVariable base names).2.skolems = names.skolems := rfl

@[simp] theorem renamed_freshSkolem (base : String) (names : Names) :
    (freshSkolem base names).2.renamed = names.renamed := rfl

@[simp] theorem taken_freshVariable (base : String) (names : Names) :
    (freshVariable base names).2.taken = (freshVariable base names).1 :: names.taken := rfl

@[simp] theorem taken_freshSkolem (base : String) (names : Names) :
    (freshSkolem base names).2.taken = (freshSkolem base names).1 :: names.taken := rfl

end Names

/-- Passes that draw names and can stop. The names drawn before an obstacle stay drawn. -/
abbrev Naming (ε α : Type) := ExceptT ε (StateM Names) α

end Clausification
