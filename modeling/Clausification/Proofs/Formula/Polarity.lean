import Clausification.Proofs.Clause.Groups
import Clausification.Proofs.Form.ImplicationFree
import Clausification.Proofs.Form.NegationNormal
import Clausification.Proofs.Form.Prenex
import Clausification.Proofs.Form.Renamed

/-!
# Signs of occurrences

Every occurrence of a predicate in a formula has a sign. The passes write the sign down in different
ways, at last as that of a literal, but none of them lets an occurrence go, adds one or turns its sign
around; only how often it occurs may change. Terms play no part in this, their number in an atom does.
-/

namespace Clausification

/-- A predicate with its number of arguments, under a sign. -/
structure Occurrence where
  positive : Bool
  predicate : String
  arity : Nat
deriving DecidableEq, Inhabited

def Atom.occurrence (positive : Bool) (a : Atom) : Occurrence :=
  ⟨positive, a.predicate, a.args.length⟩

def Literal.occurrence (l : Literal) : Occurrence := l.atom.occurrence l.positive

theorem Atom.occurrence_replace (positive : Bool) (σ : Substitution) (a : Atom) :
    (a.replace σ).occurrence positive = a.occurrence positive := by
  simp [occurrence, replace]

namespace Formula

/-- The occurrences in a formula that stands under a sign. A negation turns the sign around, an
implication does so for its left side, and below an equivalence both signs count. -/
def occurrences (positive : Bool) : Formula → List Occurrence
  | .atom a => [a.occurrence positive]
  | .not f => f.occurrences (!positive)
  | .binary .implies l r => l.occurrences (!positive) ++ r.occurrences positive
  | .binary .iff l r =>
    (l.occurrences positive ++ l.occurrences (!positive)) ++
      (r.occurrences positive ++ r.occurrences (!positive))
  | .binary _ l r => l.occurrences positive ++ r.occurrences positive
  | .quant _ _ f => f.occurrences positive
  | .term _ => []

variable {c : Connective} {positive : Bool}

theorem occurrences_binary (hc : c.IsJunction) (l r : Formula) :
    (binary c l r).occurrences positive = l.occurrences positive ++ r.occurrences positive := by
  rcases hc with rfl | rfl <;> rfl

/-- Both sides of an equivalence are written twice, once under each sign. -/
theorem mem_occurrences_withoutImplications {f : Formula} {o : Occurrence} :
    o ∈ f.withoutImplications.occurrences positive ↔ o ∈ f.occurrences positive := by
  induction f generalizing positive with
  | atom a => exact Iff.rfl
  | not f ih => exact ih
  | binary c l r ihl ihr =>
    cases c with
    | and | or | implies =>
      simp only [withoutImplications, occurrences, List.mem_append, ihl, ihr]
    | iff =>
      simp only [withoutImplications, occurrences, List.mem_append, ihl, ihr]
      constructor
      · rintro ((h | h) | (h | h))
        · exact Or.inl (Or.inr h)
        · exact Or.inr (Or.inl h)
        · exact Or.inr (Or.inr h)
        · exact Or.inl (Or.inl h)
      · rintro ((h | h) | (h | h))
        · exact Or.inr (Or.inr h)
        · exact Or.inl (Or.inl h)
        · exact Or.inl (Or.inr h)
        · exact Or.inr (Or.inl h)
  | quant q x f ih => exact ih
  | term t => exact Iff.rfl

/-- What the negation normal form carries down as a flag is the sign. -/
theorem ImplicationFree.occurrences_signed {f : Formula} (hf : f.ImplicationFree)
    (negated : Bool) : (f.signed negated).occurrences true = f.occurrences (!negated) := by
  induction hf generalizing negated with
  | atom a => cases negated <;> rfl
  | not _ ih => exact ih _
  | @binary c l r hc _ _ ihl ihr =>
    have hdual : (if negated then c.dual else c).IsJunction := by
      split
      · exact hc.dual
      · exact hc
    rw [signed, occurrences_binary hdual, occurrences_binary hc, ihl, ihr]
  | quant q x _ ih => exact ih _

theorem occurrences_renamedWith (f : Formula) (σ : Substitution) (names : Names) :
    (f.renamedWith σ names).1.occurrences positive = f.occurrences positive := by
  induction f generalizing positive σ names with
  | atom a => exact congrArg (fun o => [o]) (a.occurrence_replace positive σ)
  | not f ih => exact ih σ names
  | binary c l r ihl ihr => cases c <;> simp only [renamedWith, occurrences, ihl, ihr]
  | quant q x f ih => exact ih _ _
  | term t => rfl

theorem occurrences_matrix (f : Formula) :
    f.matrix.occurrences positive = f.occurrences positive := by
  induction f generalizing positive with
  | atom a => rfl
  | not f ih => exact ih
  | binary c l r ihl ihr => cases c <;> simp only [matrix, occurrences, ihl, ihr]
  | quant q x f ih => exact ih
  | term t => rfl

theorem occurrences_replace (f : Formula) (σ : Substitution) :
    (f.replace σ).occurrences positive = f.occurrences positive := by
  induction f generalizing positive σ with
  | atom a => exact congrArg (fun o => [o]) (a.occurrence_replace positive σ)
  | not f ih => exact ih σ
  | binary c l r ihl ihr => cases c <;> simp only [replace, occurrences, ihl, ihr]
  | quant q x f ih => exact ih _
  | term t => rfl

theorem Matrix.map_occurrence_literals {f : Formula} (hf : f.Matrix) :
    f.literals.map Literal.occurrence = f.occurrences true := by
  induction hf with
  | atom a => rfl
  | negated a => rfl
  | binary hc _ _ ihl ihr => rw [literals, List.map_append, ihl, ihr, occurrences_binary hc]

end Formula

end Clausification
