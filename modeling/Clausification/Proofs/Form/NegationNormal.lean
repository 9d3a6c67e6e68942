import Clausification.Form.NegationNormal
import Clausification.Proofs.Form.ImplicationFree

/-!
# The negation normal form keeps the meaning

The two forms built for a node are those of a recursion that carries down whether it is below an
odd number of negations. Behind the elimination of implications this leads from every well-formed
formula to one with negations on atoms only.
-/

namespace Clausification.Formula

universe u

/-- The negation normal form of a formula, or of its negation. -/
def signed : (negated : Bool) → Formula → Formula
  | b, .atom a => if b then .not (.atom a) else .atom a
  | b, .not f => f.signed (!b)
  | b, .binary c l r => .binary (if b then c.dual else c) (l.signed b) (r.signed b)
  | b, .quant q x f => .quant (if b then q.dual else q) x (f.signed b)
  | _, .term t => .term t

theorem polarized_eq {f : Formula} (hf : f.ImplicationFree) :
    f.polarized = .ok ⟨f.signed false, f.signed true⟩ := by
  unfold polarized
  induction hf with
  | atom a => simp [fold_atom, polarizedNode, signed]
  | not _ ih =>
    rw [fold_not, ih]
    rfl
  | binary hc _ _ ihl ihr =>
    rw [fold_binary, ihl, ihr]
    rcases hc with rfl | rfl <;> rfl
  | quant q x _ ih =>
    rw [fold_quant, ih]
    rfl

theorem negationNormal_eq {f : Formula} (hf : f.ImplicationFree) :
    f.negationNormal = .ok (f.signed false) := by
  rw [negationNormal, polarized_eq hf]
  rfl

theorem negationNormal_signed {f : Formula} (hf : f.ImplicationFree) (b : Bool) :
    (f.signed b).NegationNormal := by
  induction hf generalizing b with
  | atom a => cases b <;> constructor
  | not _ ih => exact ih _
  | binary hc _ _ ihl ihr =>
    cases b
    · exact .binary hc (ihl _) (ihr _)
    · exact .binary hc.dual (ihl _) (ihr _)
  | quant q x _ ih => exact .quant _ x (ih _)

theorem atoms_signed (f : Formula) (b : Bool) : (f.signed b).atoms = f.atoms := by
  induction f generalizing b with
  | atom a => cases b <;> rfl
  | not f ih => exact ih _
  | binary c l r ihl ihr => simp only [signed, atoms, ihl, ihr]
  | quant q x f ih => simpa only [signed, atoms] using ih b
  | term t => rfl

theorem freeVars_signed (f : Formula) (b : Bool) :
    (f.signed b).freeVars = f.freeVars := by
  induction f generalizing b with
  | atom a => cases b <;> rfl
  | not f ih => exact ih _
  | binary c l r ihl ihr => simp only [signed, freeVars, ihl, ihr]
  | quant q x f ih => simp only [signed, freeVars, ih]
  | term t => rfl

theorem binders_signed (f : Formula) (b : Bool) : (f.signed b).binders = f.binders := by
  induction f generalizing b with
  | atom a => cases b <;> rfl
  | not f ih => exact ih _
  | binary c l r ihl ihr => simp only [signed, binders, ihl, ihr]
  | quant q x f ih => simp only [signed, binders, ih]
  | term t => rfl

theorem symbols_signed (f : Formula) (b : Bool) : (f.signed b).symbols = f.symbols := by
  induction f generalizing b with
  | atom a => cases b <;> rfl
  | not f ih => exact ih _
  | binary c l r ihl ihr => simp only [signed, symbols, ihl, ihr]
  | quant q x f ih => simp only [signed, symbols, ih]
  | term t => rfl

theorem NegationNormal.signed_eq {f : Formula} (hf : f.NegationNormal) : f.signed false = f := by
  induction hf with
  | atom a => rfl
  | negated a => rfl
  | binary _ _ _ ihl ihr => exact congrArg₂ (Formula.binary _) ihl ihr
  | quant q x _ ih => exact congrArg (Formula.quant q x) ih

/-- The pair that one walk builds for a formula is what the recursion with a flag makes of it with
the flag down and with the flag up, so the form of the negation needs no walk of its own. Every
atom goes over into the form, once and in its place. -/
theorem polarized_follows_flag (f : Formula) (hf : f.ImplicationFree) :
    f.polarized = .ok ⟨f.signed false, f.signed true⟩ ∧
      f.negationNormal = .ok (f.signed false) ∧
      (Formula.not f).negationNormal = .ok (f.signed true) ∧
      (f.signed false).atoms = f.atoms ∧ (f.signed false).atoms.length = f.atoms.length :=
  have hatoms := f.atoms_signed false
  ⟨polarized_eq hf, negationNormal_eq hf, negationNormal_eq (.not hf), hatoms,
    congrArg List.length hatoms⟩

/-- The outer negation turns the flag for all but the operand below the inner one. -/
theorem polarized_follows_flag_of_nested_negations :
    let p : Formula := .atom ⟨"p", [.var "x"]⟩
    let q : Formula := .atom ⟨"q", []⟩
    let f : Formula := .not (.all "x" (.or (.not (.and p (.not q))) (.ex "y" (.not (.not p)))))
    let positive : Formula := .ex "x" (.and (.and p (.not q)) (.all "y" (.not p)))
    let negative : Formula := .all "x" (.or (.or (.not p) q) (.ex "y" p))
    f.ImplicationFree ∧ f.polarized = .ok ⟨positive, negative⟩ ∧ f.negationNormal = .ok positive ∧
      (Formula.not f).negationNormal = .ok negative ∧ positive.atoms.length = f.atoms.length := by
  intro p q f positive negative
  have hf : f.ImplicationFree :=
    .not (.quant .all "x" (.binary (Or.inr rfl)
      (.not (.binary (Or.inl rfl) (.atom _) (.not (.atom _))))
      (.quant .ex "y" (.not (.not (.atom _))))))
  obtain ⟨hpair, hpositive, hnegative, -, hlength⟩ := polarized_follows_flag f hf
  exact ⟨hf, hpair, hpositive, hnegative, hlength⟩

section
variable {D : Type*} [Nonempty D] (M : Interpretation D)

/-- The form of a formula is true with it, the form of its negation is false with it. -/
theorem holds_signed {f : Formula} (hf : f.ImplicationFree) (ρ : Assignment D) :
    ((f.signed false).holds M ρ ↔ f.holds M ρ) ∧ ((f.signed true).holds M ρ ↔ ¬ f.holds M ρ) := by
  induction hf generalizing ρ with
  | atom a => exact ⟨Iff.rfl, Iff.rfl⟩
  | not _ ih =>
    obtain ⟨hpos, hneg⟩ := ih ρ
    refine ⟨hneg, hpos.trans ?_⟩
    simp [holds]
  | binary hc _ _ ihl ihr =>
    obtain ⟨hlp, hln⟩ := ihl ρ
    obtain ⟨hrp, hrn⟩ := ihr ρ
    refine ⟨Connective.joins_congr hlp hrp, (Connective.joins_congr hln hrn).trans ?_⟩
    rcases hc with rfl | rfl
    · exact (Connective.not_joins_and _ _).symm
    · exact (Connective.not_joins_or _ _).symm
  | quant q x _ ih =>
    refine ⟨Quantifier.ranges_congr fun e => (ih _).1, ?_⟩
    exact (Quantifier.ranges_congr fun e => (ih _).2).trans (Quantifier.not_ranges q _).symm

end

theorem NegationNormal.exists_atom_of_not_mem_subformulas {f k : Formula} (hf : f.NegationNormal)
    (hk : .not k ∈ f.subformulas) : ∃ a, k = .atom a := by
  cases hf.of_mem_subformulas hk with
  | negated a => exact ⟨a, rfl⟩

/-- A formula without its implications, with its negations moved down to the atoms, is true where
the formula is and has the same variables, bound and free. The form of a negation is true exactly if
that of the negated formula is false. -/
theorem negationNormal_keeps_truth :
    (∀ f : Formula, f.wellFormed →
      ∃ g h, f.implicationFree = .ok g ∧ g.negationNormal = .ok h ∧
        (∀ (D : Type u) [Nonempty D] (M : Interpretation D) (ρ : Assignment D),
          h.holds M ρ ↔ f.holds M ρ) ∧
        (∀ k ∈ h.subformulas, k.kind ≠ .binary .implies ∧ k.kind ≠ .binary .iff) ∧
        (∀ k, .not k ∈ h.subformulas → ∃ a, k = .atom a) ∧
        (∀ x, x ∈ h.binders ↔ x ∈ f.binders) ∧ ∀ x, x ∈ h.freeVars ↔ x ∈ f.freeVars) ∧
    ∀ f : Formula, f.ImplicationFree →
      ∃ g h, f.negationNormal = .ok g ∧ (Formula.not f).negationNormal = .ok h ∧
        ∀ (D : Type u) [Nonempty D] (M : Interpretation D) (ρ : Assignment D),
          h.holds M ρ ↔ ¬ g.holds M ρ := by
  constructor
  · intro f hf
    have hfree := implicationFree_withoutImplications hf
    have hnormal := negationNormal_signed hfree false
    refine ⟨f.withoutImplications, f.withoutImplications.signed false, implicationFree_eq hf,
      negationNormal_eq hfree, ?_, ?_, ?_, ?_, ?_⟩
    · intro D _ M ρ
      exact (holds_signed M hfree ρ).1.trans (holds_withoutImplications M f ρ)
    · exact fun k hk => (hnormal.implicationFree.of_mem_subformulas hk).kind_ne
    · exact fun k hk => hnormal.exists_atom_of_not_mem_subformulas hk
    · intro x
      rw [binders_signed, mem_binders_withoutImplications]
    · intro x
      rw [freeVars_signed, mem_freeVars_withoutImplications]
  · intro f hf
    refine ⟨f.signed false, f.signed true, negationNormal_eq hf, negationNormal_eq (.not hf), ?_⟩
    intro D _ M ρ
    obtain ⟨hpositive, hnegative⟩ := holds_signed M hf ρ
    rw [hpositive, hnegative]

theorem negationNormal_keeps_truth_of_rebound_variable :
    let f : Formula := .not (.all "x" (.iff (.atom ⟨"P", [.var "x", .var "z"]⟩)
      (.ex "x" (.not (.atom ⟨"Q", [.app "c" [], .var "x"]⟩)))))
    let k : Formula :=
      .ex "x" (.or (.not (.not (.atom ⟨"P", []⟩))) (.not (.atom ⟨"Q", [.var "x"]⟩)))
    f.wellFormed ∧ k.ImplicationFree ∧
      (∃ g h, f.implicationFree = .ok g ∧ g.negationNormal = .ok h ∧
        (∀ (D : Type) [Nonempty D] (M : Interpretation D) (ρ : Assignment D),
          h.holds M ρ ↔ f.holds M ρ) ∧
        (∀ x, x ∈ h.binders ↔ x ∈ f.binders) ∧ ∀ x, x ∈ h.freeVars ↔ x ∈ f.freeVars) ∧
      ∃ g h, k.negationNormal = .ok g ∧ (Formula.not k).negationNormal = .ok h ∧
        ∀ (D : Type) [Nonempty D] (M : Interpretation D) (ρ : Assignment D),
          h.holds M ρ ↔ ¬ g.holds M ρ := by
  intro f k
  have hf : f.wellFormed := rfl
  have hk : k.ImplicationFree :=
    .quant .ex "x" (.binary (Or.inr rfl) (.not (.not (.atom _))) (.not (.atom _)))
  obtain ⟨g, h, hg, hh, hmeaning, -, -, hvars⟩ := negationNormal_keeps_truth.{0}.1 f hf
  exact ⟨hf, hk, ⟨g, h, hg, hh, hmeaning, hvars⟩, negationNormal_keeps_truth.{0}.2 k hk⟩

end Clausification.Formula
