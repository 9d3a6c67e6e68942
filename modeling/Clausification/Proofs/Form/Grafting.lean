import Clausification.Proofs.Form.Distributed
import Clausification.Proofs.Invariant

/-!
# Distribution keeps the meaning

Distribution reaches below negations, where what it makes of a formula is no normal form of
literals. Two things hold there as well. Grafting keeps the meaning, for each of the two connectives
distributes over the other. And it never puts the inner connective over the outer one, which is what
the checks of the normal forms look for.
-/

namespace Clausification

theorem Connective.IsJunction.joins_dual_left {c : Connective} (hc : c.IsJunction)
    (s p q : Prop) : c.joins (c.dual.joins s p) (c.dual.joins s q) ↔
      c.dual.joins s (c.joins p q) := by
  rcases hc with rfl | rfl
  · exact or_and_left.symm
  · exact and_or_left.symm

theorem Connective.IsJunction.joins_dual_right {c : Connective} (hc : c.IsJunction)
    (p q s : Prop) : c.joins (c.dual.joins p s) (c.dual.joins q s) ↔
      c.dual.joins (c.joins p q) s := by
  rcases hc with rfl | rfl
  · exact and_or_right.symm
  · exact or_and_right.symm

namespace Formula

section
variable {D : Type*} [Nonempty D] (M : Interpretation D) (ρ : Assignment D) {outer : Connective}

/-- What is done to the truth of each operand is done to the truth of the whole, if the connective
of the skeleton lets it pass. -/
theorem holds_graft {P : Prop → Prop} {leaf : Formula → Formula}
    (hP : ∀ p q, outer.joins (P p) (P q) ↔ P (outer.joins p q))
    (hleaf : ∀ f, (leaf f).holds M ρ ↔ P (f.holds M ρ)) (f : Formula) :
    (f.graft outer leaf).holds M ρ ↔ P (f.holds M ρ) :=
  graft_induction (P := fun f g => g.holds M ρ ↔ P (f.holds M ρ))
    (fun _ _ _ _ hl hr => (Connective.joins_congr hl hr).trans (hP _ _)) (fun f _ => hleaf f) f

theorem holds_pairUp (houter : outer.IsJunction) (l r : Formula) :
    (pairUp outer outer.dual l r).holds M ρ ↔ outer.dual.joins (l.holds M ρ) (r.holds M ρ) := by
  have hright (x : Formula) : (r.graft outer fun y => binary outer.dual x y).holds M ρ ↔
      outer.dual.joins (x.holds M ρ) (r.holds M ρ) :=
    holds_graft M ρ (houter.joins_dual_left _) (fun _ => Iff.rfl) r
  exact holds_graft M ρ (P := fun p => outer.dual.joins p (r.holds M ρ))
    (fun p q => houter.joins_dual_right p q _) hright l

theorem holds_distributed (houter : outer.IsJunction) {f : Formula} (hf : f.Boolean) :
    (f.distributed outer).holds M ρ ↔ f.holds M ρ := by
  induction hf with
  | atom a => exact Iff.rfl
  | not _ ih => exact not_congr ih
  | binary hc _ _ ihl ihr =>
    rcases hc.eq_or_eq_dual houter with rfl | rfl
    · rw [distributed, if_pos rfl]
      exact Connective.joins_congr ihl ihr
    · rw [distributed, if_neg houter.dual_ne]
      exact (holds_pairUp M ρ houter _ _).trans (Connective.joins_congr ihl ihr)

end

section
variable {outer : Connective} {f l r : Formula}

theorem NeverOver.graft (houter : outer.IsJunction) {leaf : Formula → Formula}
    (hleaf : ∀ f, f.kind ≠ .binary outer → f.NeverOver outer.dual outer →
      (leaf f).NeverOver outer.dual outer)
    (hf : f.NeverOver outer.dual outer) : (f.graft outer leaf).NeverOver outer.dual outer := by
  apply graft_induction
    (P := fun f g => f.NeverOver outer.dual outer → g.NeverOver outer.dual outer) ?_ hleaf f hf
  intro l l' r r' hl hr h
  obtain ⟨-, hleft, hright⟩ := neverOver_binary.mp h
  exact neverOver_binary.mpr ⟨fun h => absurd h.symm houter.dual_ne, hl hleft, hr hright⟩

theorem NeverOver.pairUp (houter : outer.IsJunction) (hl : l.NeverOver outer.dual outer)
    (hr : r.NeverOver outer.dual outer) :
    (pairUp outer outer.dual l r).NeverOver outer.dual outer :=
  -- the operands that are joined lie below both skeletons, so the outer connective builds neither
  hl.graft houter fun _ hx hleft => hr.graft houter fun _ hy hright =>
    neverOver_binary.mpr ⟨fun _ => ⟨hx, hy⟩, hleft, hright⟩

theorem neverOver_distributed (houter : outer.IsJunction) (hf : f.Boolean) :
    (f.distributed outer).NeverOver outer.dual outer := by
  induction hf with
  | atom a => exact neverOver_atom _ _ a
  | not _ ih => exact neverOver_not.mpr ih
  | binary hc _ _ ihl ihr =>
    rcases hc.eq_or_eq_dual houter with rfl | rfl
    · rw [distributed, if_pos rfl]
      exact neverOver_binary.mpr ⟨fun h => absurd h.symm houter.dual_ne, ihl, ihr⟩
    · rw [distributed, if_neg houter.dual_ne]
      exact ihl.pairUp houter ihr

theorem negationNormal_distributed (houter : outer.IsJunction) (hf : f.Boolean)
    (hnormal : f.NegationNormal) : (f.distributed outer).NegationNormal :=
  ((normalForm_distributed houter (hf.matrix hnormal)).matrix houter).negationNormal

end

universe u

/-- Distribution succeeds on all formulas of negations, conjunctions and disjunctions, and both of
its results are true where the formula is. In the one no disjunction is directly over a conjunction,
in the other no conjunction over a disjunction, at any depth, so the checks find nothing. For a
negation normal form both results are negation normal forms. -/
theorem distribution_keeps_truth (f : Formula) (hf : f.Boolean) :
    ∃ g h, f.conjunctive = .ok g ∧ f.disjunctive = .ok h ∧
      (∀ (D : Type u) [Nonempty D] (M : Interpretation D) (ρ : Assignment D),
        (g.holds M ρ ↔ f.holds M ρ) ∧ (h.holds M ρ ↔ f.holds M ρ)) ∧
      (g.NeverOver .or .and ∧ h.NeverOver .and .or) ∧
      (∀ path, Invariant.conjunctive path g = [] ∧ Invariant.disjunctive path h = []) ∧
      (f.NegationNormal → g.NegationNormal ∧ h.NegationNormal) := by
  have hand : Connective.and.IsJunction := Or.inl rfl
  have hor : Connective.or.IsJunction := Or.inr rfl
  have hg : (f.distributed .and).NeverOver .or .and := neverOver_distributed hand hf
  have hh : (f.distributed .or).NeverOver .and .or := neverOver_distributed hor hf
  refine ⟨f.distributed .and, f.distributed .or, distribute_eq .conjunctive hand hf,
    distribute_eq .disjunctive hor hf, ?_, ⟨hg, hh⟩, ?_, ?_⟩
  · intro D _ M ρ
    exact ⟨holds_distributed M ρ hand hf, holds_distributed M ρ hor hf⟩
  · intro path
    exact ⟨(Invariant.conjunctive_eq_nil_iff path).mpr hg,
      (Invariant.disjunctive_eq_nil_iff path).mpr hh⟩
  · intro hnormal
    exact ⟨negationNormal_distributed hand hf hnormal, negationNormal_distributed hor hf hnormal⟩

/-- The negated formula has a conjunction under a disjunction of its own. -/
theorem distribution_keeps_truth_of_negated_junctions :
    let p : Formula := .atom ⟨"p", [.app "c" []]⟩
    let q : Formula := .atom ⟨"q", [.var "x"]⟩
    let k : Formula := .or (.and p (.not q)) (.and q p)
    let f : Formula := .and (.or k (.not k)) q
    f.Boolean ∧ k.Boolean ∧ k.NegationNormal ∧
      (∃ g h, f.conjunctive = .ok g ∧ f.disjunctive = .ok h ∧
        (∀ (D : Type) [Nonempty D] (M : Interpretation D) (ρ : Assignment D),
          (g.holds M ρ ↔ f.holds M ρ) ∧ (h.holds M ρ ↔ f.holds M ρ)) ∧
        ∀ path, Invariant.conjunctive path g = [] ∧ Invariant.disjunctive path h = []) ∧
      ∃ g h, k.conjunctive = .ok g ∧ k.disjunctive = .ok h ∧
        g.NegationNormal ∧ h.NegationNormal := by
  intro p q k f
  have hk : k.NegationNormal :=
    .binary (Or.inr rfl) (.binary (Or.inl rfl) (.atom _) (.negated _))
      (.binary (Or.inl rfl) (.atom _) (.atom _))
  have hkb : k.Boolean :=
    .binary (Or.inr rfl) (.binary (Or.inl rfl) (.atom _) (.not (.atom _)))
      (.binary (Or.inl rfl) (.atom _) (.atom _))
  have hf : f.Boolean := .binary (Or.inl rfl) (.binary (Or.inr rfl) hkb (.not hkb)) (.atom _)
  obtain ⟨g, h, hg, hh, hmeaning, -, hchecks, -⟩ := distribution_keeps_truth.{0} f hf
  obtain ⟨g', h', hg', hh', -, -, -, hnormal⟩ := distribution_keeps_truth.{0} k hkb
  exact ⟨hf, hkb, hk, ⟨g, h, hg, hh, hmeaning, hchecks⟩, g', h', hg', hh', hnormal hk⟩

end Formula

end Clausification
