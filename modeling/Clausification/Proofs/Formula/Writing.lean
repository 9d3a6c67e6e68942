import Clausification.Formula.Rendering
import Clausification.Proofs.Formula.Walk

/-!
# Formulas in writing

Every well-formed formula can be written, and its writing is given by recursion.
-/

namespace Clausification.Formula

/-- A formula in writing, if it is well-formed. -/
def writing (n : Notation) : Formula → String
  | .atom a => a.text n
  | .not f => n.signs.neg ++ f.grouped (f.writing n)
  | .binary c l r => l.grouped (l.writing n) ++ n.signs.connective c ++ r.grouped (r.writing n)
  | .quant q x f =>
    n.signs.quantifier q ++ x ++ n.signs.afterVariable ++ f.grouped (f.writing n)
  | .term _ => ""

theorem render_eq (n : Notation) {f : Formula} (hf : f.wellFormed) :
    f.render n = .ok (f.writing n) := by
  unfold render
  induction f with
  | atom a =>
    have ha : a.wellFormed := hf
    rw [fold_atom, renderNode, Atom.render, if_pos ha]
    rfl
  | not f ih =>
    rw [fold_not, ih hf]
    rfl
  | binary c l r ihl ihr =>
    simp only [wellFormed, Bool.and_eq_true] at hf
    rw [fold_binary, ihl hf.1, ihr hf.2]
    rfl
  | quant q x f ih =>
    rw [fold_quant, ih hf]
    rfl
  | term t => simp [wellFormed] at hf

end Clausification.Formula
