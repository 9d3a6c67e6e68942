import Clausification.Proofs.Form.Distributed
import Clausification.Proofs.Form.NegationNormal

/-!
# Duality of the normal forms

The negation of a matrix exchanges conjunctions and disjunctions, and every literal for its opposite.
What distributes one connective over the other then distributes the other over the one: a graft goes
over into the graft of the dual skeleton, and so the two normal forms of a formula are, tree for tree,
the negations of the two normal forms of its negation.
-/

namespace Clausification.Formula

variable {f l r : Formula} {inner outer : Connective}

theorem Matrix.signed (hf : f.Matrix) : (f.signed true).Matrix := by
  induction hf with
  | atom a => exact .negated a
  | negated a => exact .atom a
  | binary hc _ _ ihl ihr => exact .binary hc.dual ihl ihr

theorem Matrix.kind_signed_ne (hf : f.Matrix) (hkind : f.kind ≠ .binary outer) :
    (f.signed true).kind ≠ .binary outer.dual := by
  cases hf with
  | atom a => simp [Formula.signed, kind]
  | negated a => simp [Formula.signed, kind]
  | @binary c l r hc _ _ =>
    intro h
    have hdual : c.dual = outer.dual := by simpa [Formula.signed, kind] using h
    have hc : c = outer := by rw [← c.dual_dual, hdual, outer.dual_dual]
    exact hkind (by rw [hc]; rfl)

/-- The negation of a graft is a graft of the negation: the skeleton goes over into its dual, and what
is put in for an operand into what is put in for the negated operand. -/
theorem Matrix.signed_graft {leaf leaf' : Formula → Formula}
    (hleaf : ∀ g, (leaf g).signed true = leaf' (g.signed true)) (hf : f.Matrix) :
    (f.graft outer leaf).signed true = (f.signed true).graft outer.dual leaf' := by
  have hoff {g : Formula} (hg : g.Matrix) (hkind : g.kind ≠ .binary outer) :
      (g.graft outer leaf).signed true = (g.signed true).graft outer.dual leaf' := by
    rw [graft_of_kind_ne hkind, graft_of_kind_ne (hg.kind_signed_ne hkind), hleaf]
  induction hf with
  | atom a => exact hoff (.atom a) (by simp [kind])
  | negated a => exact hoff (.negated a) (by simp [kind])
  | @binary c l r hc hl hr ihl ihr =>
    by_cases houter : c = outer
    · subst houter
      rw [graft_binary]
      simp only [Formula.signed, if_true]
      rw [graft_binary, ihl, ihr]
    · exact hoff (.binary hc hl hr) (by simpa [kind] using houter)

theorem Matrix.signed_pairUp (hl : l.Matrix) (hr : r.Matrix) :
    (pairUp outer inner l r).signed true =
      pairUp outer.dual inner.dual (l.signed true) (r.signed true) :=
  hl.signed_graft fun _ => hr.signed_graft fun _ => rfl

theorem Matrix.signed_distributed (houter : outer.IsJunction) (hf : f.Matrix) :
    (f.distributed outer).signed true = (f.signed true).distributed outer.dual := by
  induction hf with
  | atom a => rfl
  | negated a => rfl
  | binary hc hl hr ihl ihr =>
    have hleft := (normalForm_distributed houter hl).matrix houter
    have hright := (normalForm_distributed houter hr).matrix houter
    rcases hc.eq_or_eq_dual houter with rfl | rfl
    · simp only [distributed, Formula.signed, if_true, ihl, ihr]
    · have hne : outer.dual.dual ≠ outer.dual := houter.dual.dual_ne
      simp only [distributed, Formula.signed, if_true, if_neg houter.dual_ne, if_neg hne]
      rw [hleft.signed_pairUp hright, ihl, ihr]

/-- The disjunctive normal form of the negation is the negation of the conjunctive normal form, and
the conjunctive one that of the disjunctive one; they are the same trees. -/
theorem normal_forms_are_dual (f : Formula) (hf : f.Matrix) :
    ∃ n g h g' h', (not f).negationNormal = .ok n ∧ f.conjunctive = .ok g ∧ f.disjunctive = .ok h ∧
      n.disjunctive = .ok g' ∧ (not g).negationNormal = .ok g' ∧
      n.conjunctive = .ok h' ∧ (not h).negationNormal = .ok h' := by
  have hand : Connective.and.IsJunction := Or.inl rfl
  have hor : Connective.or.IsJunction := Or.inr rfl
  have hn : (not f).negationNormal = .ok (f.signed true) :=
    negationNormal_eq (.not hf.negationNormal.implicationFree)
  have hnegated (outer : Connective) (houter : outer.IsJunction) :
      (not (f.distributed outer)).negationNormal = .ok ((f.signed true).distributed outer.dual) := by
    have hmatrix := (normalForm_distributed houter hf).matrix houter
    rw [negationNormal_eq (.not hmatrix.negationNormal.implicationFree),
      ← hf.signed_distributed houter]
    rfl
  exact ⟨f.signed true, f.distributed .and, f.distributed .or, (f.signed true).distributed .or,
    (f.signed true).distributed .and, hn, conjunctive_eq hf, disjunctive_eq hf,
    disjunctive_eq hf.signed, hnegated .and hand, conjunctive_eq hf.signed, hnegated .or hor⟩

/-- The disjunction has conjunctions on both sides, one of them over a disjunction again. -/
theorem normal_forms_are_dual_of_nested_junctions :
    let p : Formula := .atom ⟨"p", [.app "c" []]⟩
    let q : Formula := .atom ⟨"q", [.var "x"]⟩
    let f : Formula := .or (.and p (.or q (.not p))) (.and (.not q) p)
    f.Matrix ∧ ∃ n g h g' h', (not f).negationNormal = .ok n ∧ f.conjunctive = .ok g ∧
      f.disjunctive = .ok h ∧ n.disjunctive = .ok g' ∧ (not g).negationNormal = .ok g' ∧
      n.conjunctive = .ok h' ∧ (not h).negationNormal = .ok h' := by
  intro p q f
  have hf : f.Matrix :=
    .binary (Or.inr rfl)
      (.binary (Or.inl rfl) (.atom _) (.binary (Or.inr rfl) (.atom _) (.negated _)))
      (.binary (Or.inl rfl) (.negated _) (.atom _))
  exact ⟨hf, normal_forms_are_dual f hf⟩

end Clausification.Formula
