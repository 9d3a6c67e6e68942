import Clausification.Form.ImplicationFree
import Clausification.Proofs.Formula.Meaning
import Clausification.Proofs.Formula.Shape
import Clausification.Proofs.Formula.Walk

/-!
# The implication-free form keeps the meaning

The pass succeeds on every formula without misplaced terms. An equivalence doubles both of its
sides, binders included, so atoms and variables are compared as sets.
-/

namespace Clausification.Formula

/-- The implication-free form of a formula that has no misplaced terms. -/
def withoutImplications : Formula → Formula
  | .binary .implies l r => or (not l.withoutImplications) r.withoutImplications
  | .binary .iff l r =>
    and (or (not l.withoutImplications) r.withoutImplications)
      (or (not r.withoutImplications) l.withoutImplications)
  | .binary c l r => binary c l.withoutImplications r.withoutImplications
  | .not f => not f.withoutImplications
  | .quant q x f => quant q x f.withoutImplications
  | f => f

attribute [local simp] withoutImplications

theorem Proper.implicationFree_eq {f : Formula} (hf : f.Proper) :
    f.implicationFree = .ok f.withoutImplications := by
  unfold implicationFree
  induction hf with
  | atom a => simp [fold_atom, implicationFreeNode]
  | not _ ih =>
    rw [fold_not, ih]
    rfl
  | binary c _ _ ihl ihr =>
    rw [fold_binary, ihl, ihr]
    cases c <;> rfl
  | quant q x _ ih =>
    rw [fold_quant, ih]
    rfl

theorem implicationFree_eq {f : Formula} (hf : f.wellFormed) :
    f.implicationFree = .ok f.withoutImplications :=
  (proper_of_wellFormed hf).implicationFree_eq

theorem Proper.implicationFree_withoutImplications {f : Formula} (hf : f.Proper) :
    f.withoutImplications.ImplicationFree := by
  induction hf with
  | atom a => exact .atom a
  | not _ ih => exact .not ih
  | binary c _ _ hl hr =>
    cases c with
    | and => exact .binary (Or.inl rfl) hl hr
    | or => exact .binary (Or.inr rfl) hl hr
    | implies => exact .binary (Or.inr rfl) (.not hl) hr
    | iff =>
      exact .binary (Or.inl rfl) (.binary (Or.inr rfl) (.not hl) hr)
        (.binary (Or.inr rfl) (.not hr) hl)
  | quant q x _ ih => exact .quant q x ih

theorem implicationFree_withoutImplications {f : Formula} (hf : f.wellFormed) :
    f.withoutImplications.ImplicationFree :=
  (proper_of_wellFormed hf).implicationFree_withoutImplications

theorem mem_atoms_withoutImplications {f : Formula} {a : Atom} :
    a ∈ f.withoutImplications.atoms ↔ a ∈ f.atoms := by
  induction f with
  | atom b => exact Iff.rfl
  | not f ih => exact ih
  | binary c l r ihl ihr =>
    cases c <;> simp only [withoutImplications, atoms, List.mem_append, ihl, ihr]
    exact ⟨fun h => h.elim id Or.symm, Or.inl⟩
  | quant q x f ih => exact ih
  | term t => exact Iff.rfl

theorem mem_freeVars_withoutImplications {f : Formula} {x : String} :
    x ∈ f.withoutImplications.freeVars ↔ x ∈ f.freeVars := by
  induction f with
  | atom a => exact Iff.rfl
  | not f ih => exact ih
  | binary c l r ihl ihr =>
    cases c <;> simp only [withoutImplications, freeVars, List.mem_append, ihl, ihr]
    exact ⟨fun h => h.elim id Or.symm, Or.inl⟩
  | quant q y f ih => simp only [withoutImplications, mem_freeVars_quant, ih]
  | term t => exact Iff.rfl

theorem mem_binders_withoutImplications {f : Formula} {x : String} :
    x ∈ f.withoutImplications.binders ↔ x ∈ f.binders := by
  induction f with
  | atom a => exact Iff.rfl
  | not f ih => exact ih
  | binary c l r ihl ihr =>
    cases c <;> simp only [withoutImplications, binders, List.mem_append, ihl, ihr]
    exact ⟨fun h => h.elim id Or.symm, Or.inl⟩
  | quant q y f ih => simp only [withoutImplications, binders, List.mem_cons, ih]
  | term t => exact Iff.rfl

theorem mem_symbols_withoutImplications {f : Formula} {x : String} :
    x ∈ f.withoutImplications.symbols ↔ x ∈ f.symbols := by
  induction f with
  | atom a => exact Iff.rfl
  | not f ih => exact ih
  | binary c l r ihl ihr =>
    cases c <;> simp only [withoutImplications, symbols, List.mem_append, ihl, ihr]
    exact ⟨fun h => h.elim id Or.symm, Or.inl⟩
  | quant q y f ih => simp only [withoutImplications, symbols, List.mem_cons, ih]
  | term t => exact Iff.rfl

theorem ImplicationFree.withoutImplications_eq {f : Formula} (hf : f.ImplicationFree) :
    f.withoutImplications = f := by
  induction hf with
  | atom a => rfl
  | not _ ih => exact congrArg Formula.not ih
  | binary hc _ _ ihl ihr => rcases hc with rfl | rfl <;> rw [withoutImplications, ihl, ihr] <;> simp
  | quant q x _ ih => exact congrArg (Formula.quant q x) ih

theorem holds_withoutImplications {D : Type*} [Nonempty D] (M : Interpretation D) (f : Formula)
    (ρ : Assignment D) : f.withoutImplications.holds M ρ ↔ f.holds M ρ := by
  induction f generalizing ρ with
  | atom a => exact Iff.rfl
  | not f ih => exact not_congr (ih ρ)
  | binary c l r ihl ihr =>
    have hl := ihl ρ
    have hr := ihr ρ
    cases c <;> simp only [withoutImplications, holds, Connective.joins, hl, hr]
    · exact imp_iff_not_or.symm
    · exact (iff_def'.trans and_comm).trans (and_congr imp_iff_not_or imp_iff_not_or) |>.symm
  | quant q x f ih => exact Quantifier.ranges_congr fun e => ih _
  | term t => exact Iff.rfl

end Clausification.Formula
