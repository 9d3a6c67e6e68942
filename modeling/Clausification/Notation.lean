import Clausification.Formula.Basic
import Clausification.Text.Pieces
import Clausification.Text.Quoted

/-!
# Notations

The two ways to write formulas: mark-up for typesetting, and plain text.
-/

namespace Clausification

inductive Notation where
  | latex
  | text
deriving DecidableEq, Inhabited

structure Signs where
  neg : String
  and : String
  or : String
  implies : String
  iff : String
  all : String
  ex : String
  afterVariable : String
  betweenArguments : String
  emptyClause : String
  emptySet : String
  betweenLines : String

namespace Notation

def name : Notation → String
  | latex => "latex"
  | text => "text"

def signs : Notation → Signs
  | latex => {
      neg := "\\lnot ", and := " \\land ", or := " \\lor ", implies := " \\rightarrow "
      iff := " \\leftrightarrow ", all := "\\forall ", ex := "\\exists "
      afterVariable := " \\, ", betweenArguments := ","
      emptyClause := "\\text\x7bempty clause\x7d", emptySet := "\\text\x7bempty set\x7d"
      betweenLines := " \\\\ " }
  | text => {
      neg := "¬", and := " ∧ ", or := " ∨ ", implies := " → ", iff := " ↔ ", all := "∀", ex := "∃"
      afterVariable := ". ", betweenArguments := ", ", emptyClause := "□", emptySet := "∅"
      betweenLines := "\n" }

def ofName? (s : String) : Option Notation := [latex, text].find? (·.name == s)

@[simp] theorem ofName?_name (n : Notation) : ofName? n.name = some n := by cases n <;> decide

/-- The characters of mark-up that have a meaning, in the order in which they are escaped. -/
def escapes : List (Char × String) := [
  ('\\', "\\textbackslash "), ('\x7b', "\\\x7b"), ('\x7d', "\\\x7d"), ('_', "\\_"), ('#', "\\#"),
  ('%', "\\%"), ('&', "\\&"), ('$', "\\$"), ('~', "\\textasciitilde "), ('^', "\\textasciicircum ")]

def escape (s : String) : String := escapes.foldl (fun s (c, t) => Text.replaceChar c t s) s

def prose (n : Notation) (s : String) : String :=
  match n with
  | latex => "\\text\x7b" ++ escape s ++ "\x7d"
  | text => s

end Notation

def Signs.connective (signs : Signs) : Connective → String
  | .and => signs.and
  | .or => signs.or
  | .implies => signs.implies
  | .iff => signs.iff

def Signs.quantifier (signs : Signs) : Quantifier → String
  | .all => signs.all
  | .ex => signs.ex

end Clausification
