import Clausification.Form.Prenex
import Clausification.Proofs.Formula.Meaning
import Clausification.Proofs.Formula.Shape
import Clausification.Proofs.Formula.Walk

/-!
# The prenex form keeps the meaning

Quantifiers of one operand may stand in front of both, since no variable is bound twice and none is
bound and free. Over an empty domain this would be wrong.
-/

namespace Clausification

namespace Formula

/-- The quantifiers of a formula, outermost first, left to right. -/
def quantifiers : Formula → Prefix
  | .not f => f.quantifiers
  | .binary _ l r => l.quantifiers ++ r.quantifiers
  | .quant q x f => (q, x) :: f.quantifiers
  | .atom _ | .term _ => []

/-- The quantifier at the head of a formula, with its variable. -/
def binding? : Formula → Option (Quantifier × String)
  | .quant q x _ => some (q, x)
  | _ => none

/-- A formula without its quantifiers. -/
def matrix : Formula → Formula
  | .not f => .not f.matrix
  | .binary c l r => .binary c l.matrix r.matrix
  | .quant _ _ f => f.matrix
  | .atom a => .atom a
  | .term t => .term t

theorem pullQuantifiers_eq {f : Formula} (hf : f.ImplicationFree) :
    f.pullQuantifiers = .ok ⟨f.quantifiers, f.matrix⟩ := by
  unfold pullQuantifiers
  induction hf with
  | atom a => simp [fold_atom, prenexNode, quantifiers, matrix]
  | not _ ih =>
    rw [fold_not, ih]
    rfl
  | binary hc _ _ ihl ihr =>
    rw [fold_binary, ihl, ihr]
    rcases hc with rfl | rfl <;> rfl
  | quant q x _ ih =>
    rw [fold_quant, ih]
    rfl

theorem prenex_eq {f : Formula} (hf : f.ImplicationFree) :
    f.prenex = .ok (Prenex.formula ⟨f.quantifiers, f.matrix⟩) := by
  rw [prenex, pullQuantifiers_eq hf]
  rfl

theorem quantifiers_eq_filterMap (f : Formula) :
    f.quantifiers = f.subformulas.filterMap binding? := by
  induction f with
  | atom a => rfl
  | not f ih => exact ih
  | binary c l r ihl ihr =>
    rw [quantifiers, ihl, ihr, ← List.filterMap_append]
    rfl
  | quant q x f ih => exact congrArg ((q, x) :: ·) ih
  | term t => rfl

theorem map_snd_quantifiers (f : Formula) : f.quantifiers.map Prod.snd = f.binders := by
  induction f with
  | atom a => rfl
  | not f ih => exact ih
  | binary c l r ihl ihr => simp [quantifiers, binders, ihl, ihr]
  | quant q x f ih => simp [quantifiers, binders, ih]
  | term t => rfl

theorem NegationNormal.matrix {f : Formula} (hf : f.NegationNormal) : f.matrix.Matrix := by
  induction hf with
  | atom a => exact .atom a
  | negated a => exact .negated a
  | binary hc _ _ ihl ihr => exact .binary hc ihl ihr
  | quant q x _ ih => exact ih

theorem atoms_matrix (f : Formula) : f.matrix.atoms = f.atoms := by
  induction f with
  | atom a => rfl
  | not f ih => exact ih
  | binary c l r ihl ihr => simp only [Formula.matrix, atoms, ihl, ihr]
  | quant q x f ih => exact ih
  | term t => rfl

theorem mem_freeVars_matrix {f : Formula} {x : String} (hx : x ∈ f.matrix.freeVars) :
    x ∈ f.freeVars ∨ x ∈ f.binders := by
  induction f with
  | atom a => exact Or.inl hx
  | not f ih => exact ih hx
  | binary c l r ihl ihr =>
    rcases List.mem_append.mp hx with hx | hx
    · exact (ihl hx).imp (List.mem_append_left _) (List.mem_append_left _)
    · exact (ihr hx).imp (List.mem_append_right _) (List.mem_append_right _)
  | quant q y f ih =>
    by_cases hxy : x = y
    · exact Or.inr (hxy ▸ List.mem_cons_self)
    · exact (ih hx).imp (fun h => mem_freeVars_quant.mpr ⟨h, hxy⟩) (List.mem_cons_of_mem y)
  | term t => exact nomatch hx

theorem freeVars_subset_matrix (f : Formula) : f.freeVars ⊆ f.matrix.freeVars := by
  induction f with
  | atom a => exact List.Subset.refl _
  | not f ih => exact ih
  | binary c l r ihl ihr =>
    intro x hx
    rcases List.mem_append.mp hx with hx | hx
    · exact List.mem_append_left _ (ihl hx)
    · exact List.mem_append_right _ (ihr hx)
  | quant q y f ih => exact fun x hx => ih (mem_freeVars_quant.mp hx).1
  | term t => exact List.Subset.refl _

theorem QuantifierFree.quantifiers_eq_nil {f : Formula} (hf : f.QuantifierFree) :
    f.quantifiers = [] := by
  rw [← List.map_eq_nil_iff (f := Prod.snd), map_snd_quantifiers, hf.binders_eq_nil]

theorem QuantifierFree.matrix_eq {f : Formula} (hf : f.QuantifierFree) : f.matrix = f := by
  induction hf with
  | atom a => rfl
  | not _ ih => exact congrArg Formula.not ih
  | binary c _ _ ihl ihr => exact congrArg₂ (Formula.binary c) ihl ihr

end Formula

namespace Prenex

theorem formula_append (ps qs : Prefix) (f : Formula) :
    formula ⟨ps ++ qs, f⟩ = formula ⟨ps, formula ⟨qs, f⟩⟩ := by
  simp [formula, List.foldr_append]

theorem binders_formula (qs : Prefix) (f : Formula) :
    (formula ⟨qs, f⟩).binders = qs.map Prod.snd ++ f.binders := by
  induction qs with
  | nil => rfl
  | cons p qs ih => simpa [Formula.binders, formula] using ih

theorem atoms_formula (qs : Prefix) (f : Formula) : (formula ⟨qs, f⟩).atoms = f.atoms := by
  induction qs with
  | nil => rfl
  | cons p qs ih => exact ih

theorem wellFormed_formula (qs : Prefix) (f : Formula) :
    (formula ⟨qs, f⟩).wellFormed = f.wellFormed := by
  induction qs with
  | nil => rfl
  | cons p qs ih => exact ih

theorem quantifiers_formula (qs : Prefix) (f : Formula) :
    (formula ⟨qs, f⟩).quantifiers = qs ++ f.quantifiers := by
  induction qs with
  | nil => rfl
  | cons p qs ih => exact congrArg (p :: ·) ih

theorem matrix_formula (qs : Prefix) (f : Formula) : (formula ⟨qs, f⟩).matrix = f.matrix := by
  induction qs with
  | nil => rfl
  | cons p qs ih => exact ih

theorem negationNormal_formula (qs : Prefix) {f : Formula} (hf : f.NegationNormal) :
    (formula ⟨qs, f⟩).NegationNormal := by
  induction qs with
  | nil => exact hf
  | cons p qs ih => exact .quant p.1 p.2 ih

theorem mem_freeVars_formula {qs : Prefix} {f : Formula} {x : String} :
    x ∈ (formula ⟨qs, f⟩).freeVars ↔ x ∈ f.freeVars ∧ x ∉ qs.map Prod.snd := by
  induction qs with
  | nil => simp
  | cons p qs ih =>
    obtain ⟨q, y⟩ := p
    simp only [formula_cons, Formula.mem_freeVars_quant, ih, List.map_cons, List.mem_cons, not_or]
    constructor
    · rintro ⟨⟨hf, hqs⟩, hy⟩
      exact ⟨hf, hy, hqs⟩
    · rintro ⟨hf, hy, hqs⟩
      exact ⟨⟨hf, hqs⟩, hy⟩

/-- A formula in which no variable is both bound and free has the same free variables with its
quantifiers in front. -/
theorem mem_freeVars_formula_matrix {f : Formula} (hfree : ∀ x ∈ f.binders, x ∉ f.freeVars)
    {x : String} : x ∈ (formula ⟨f.quantifiers, f.matrix⟩).freeVars ↔ x ∈ f.freeVars := by
  rw [mem_freeVars_formula, Formula.map_snd_quantifiers]
  constructor
  · rintro ⟨hmatrix, hbound⟩
    exact (Formula.mem_freeVars_matrix hmatrix).resolve_right hbound
  · exact fun hx => ⟨f.freeVars_subset_matrix hx, fun hbound => hfree x hbound hx⟩

/-- What was put in front of a formula that starts with no quantifier is split off again. -/
theorem splitPrefix_formula (qs : Prefix) {f : Formula} (hf : f.isQuant = false) :
    (formula ⟨qs, f⟩).splitPrefix = ⟨qs, f⟩ := by
  induction qs with
  | nil =>
    cases f with
    | quant q x f => nomatch hf
    | _ => rfl
  | cons p qs ih =>
    obtain ⟨q, x⟩ := p
    simp only [formula_cons, Formula.splitPrefix, ih]

section
variable {D : Type*} [Nonempty D] {M : Interpretation D} {ρ : Assignment D}

/-- What follows a prefix may be exchanged for something that means the same. -/
theorem holds_formula_congr {f g : Formula} (h : ∀ ρ, f.holds M ρ ↔ g.holds M ρ) (qs : Prefix) :
    (formula ⟨qs, f⟩).holds M ρ ↔ (formula ⟨qs, g⟩).holds M ρ := by
  induction qs generalizing ρ with
  | nil => exact h ρ
  | cons p qs ih => exact Quantifier.ranges_congr fun e => ih

end

end Prenex

section
variable {D : Type*} [Nonempty D]

/-- A proposition that does not speak of the element may leave the scope of a quantifier. -/
theorem Quantifier.ranges_joins_right {c : Connective} (hc : c.IsJunction) (q : Quantifier)
    (p : D → Prop) (s : Prop) : q.ranges (fun e => c.joins (p e) s) ↔ c.joins (q.ranges p) s := by
  rcases hc with rfl | rfl <;> cases q <;>
    simp [ranges, Connective.joins, forall_or_right, forall_and, exists_or]

theorem Quantifier.ranges_joins_left {c : Connective} (hc : c.IsJunction) (q : Quantifier)
    (s : Prop) (p : D → Prop) : q.ranges (fun e => c.joins s (p e)) ↔ c.joins s (q.ranges p) := by
  rcases hc with rfl | rfl <;> cases q <;>
    simp [ranges, Connective.joins, forall_or_left, forall_and, exists_or]

namespace Prenex
variable {M : Interpretation D} {c : Connective} {qs : Prefix} {f g : Formula}

theorem holds_formula_left (hc : c.IsJunction) (hg : ∀ x ∈ qs.map Prod.snd, x ∉ g.freeVars)
    (ρ : Assignment D) : (formula ⟨qs, .binary c f g⟩).holds M ρ ↔
      c.joins ((formula ⟨qs, f⟩).holds M ρ) (g.holds M ρ) := by
  induction qs generalizing ρ with
  | nil => exact Iff.rfl
  | cons p qs ih =>
    obtain ⟨q, x⟩ := p
    have hx : x ∉ g.freeVars := hg x List.mem_cons_self
    have hqs := ih fun y hy => hg y (List.mem_cons_of_mem x hy)
    simp only [formula_cons, Formula.holds, hqs, Formula.holds_update_of_not_mem hx]
    exact Quantifier.ranges_joins_right hc q _ _

theorem holds_formula_right (hc : c.IsJunction) (hf : ∀ x ∈ qs.map Prod.snd, x ∉ f.freeVars)
    (ρ : Assignment D) : (formula ⟨qs, .binary c f g⟩).holds M ρ ↔
      c.joins (f.holds M ρ) ((formula ⟨qs, g⟩).holds M ρ) := by
  induction qs generalizing ρ with
  | nil => exact Iff.rfl
  | cons p qs ih =>
    obtain ⟨q, x⟩ := p
    have hx : x ∉ f.freeVars := hf x List.mem_cons_self
    have hqs := ih fun y hy => hf y (List.mem_cons_of_mem x hy)
    simp only [formula_cons, Formula.holds, hqs, Formula.holds_update_of_not_mem hx]
    exact Quantifier.ranges_joins_left hc q _ _

end Prenex

/-- The prenex form of a negation normal form in which no variable is bound twice, and none both
bound and free. -/
theorem Formula.holds_prenex (M : Interpretation D) {f : Formula} (hf : f.NegationNormal)
    (hnodup : f.binders.Nodup) (hfree : ∀ x ∈ f.binders, x ∉ f.freeVars) (ρ : Assignment D) :
    (Prenex.formula ⟨f.quantifiers, f.matrix⟩).holds M ρ ↔ f.holds M ρ := by
  induction hf generalizing ρ with
  | atom a => exact Iff.rfl
  | negated a => exact Iff.rfl
  | @binary c l r hc _ _ ihl ihr =>
    obtain ⟨hnl, hnr, hdisj⟩ := List.nodup_append.mp hnodup
    simp only [binders, freeVars, List.mem_append, not_or] at hfree
    have hl := ihl hnl fun x hx => (hfree x (Or.inl hx)).1
    have hr := ihr hnr fun x hx => (hfree x (Or.inr hx)).2
    have hinner : ∀ x ∈ r.quantifiers.map Prod.snd, x ∉ l.matrix.freeVars := by
      intro x hx hmem
      rw [map_snd_quantifiers] at hx
      rcases mem_freeVars_matrix hmem with hmem | hmem
      · exact (hfree x (Or.inr hx)).1 hmem
      · exact hdisj x hmem x hx rfl
    have houter : ∀ x ∈ l.quantifiers.map Prod.snd,
        x ∉ (Prenex.formula ⟨r.quantifiers, r.matrix⟩).freeVars := by
      intro x hx hmem
      rw [map_snd_quantifiers] at hx
      obtain ⟨hmem, hnot⟩ := Prenex.mem_freeVars_formula.mp hmem
      rw [map_snd_quantifiers] at hnot
      exact (mem_freeVars_matrix hmem).elim (hfree x (Or.inl hx)).2 hnot
    calc (Prenex.formula ⟨l.quantifiers ++ r.quantifiers, .binary c l.matrix r.matrix⟩).holds M ρ
        ↔ (Prenex.formula ⟨l.quantifiers,
            .binary c l.matrix (Prenex.formula ⟨r.quantifiers, r.matrix⟩)⟩).holds M ρ := by
          rw [Prenex.formula_append]
          exact Prenex.holds_formula_congr (fun ρ => Prenex.holds_formula_right hc hinner ρ) _
      _ ↔ c.joins ((Prenex.formula ⟨l.quantifiers, l.matrix⟩).holds M ρ)
            ((Prenex.formula ⟨r.quantifiers, r.matrix⟩).holds M ρ) :=
          Prenex.holds_formula_left hc houter ρ
      _ ↔ c.joins (l.holds M ρ) (r.holds M ρ) := Connective.joins_congr (hl ρ) (hr ρ)
  | quant q x _ ih =>
    obtain ⟨hx, hn⟩ := List.nodup_cons.mp hnodup
    refine Quantifier.ranges_congr fun e => ih hn (fun y hy => ?_) _
    have hyx : y ≠ x := fun h => hx (h ▸ hy)
    exact fun hmem => hfree y (List.mem_cons_of_mem x hy) (mem_freeVars_quant.mpr ⟨hmem, hyx⟩)

end

namespace Formula
universe u

/-- The prenex form has the quantifiers in the order in which the formula has them, each before those
below it, and behind them the formula without quantifiers. As no variable is bound twice, and none
both bound and free, it is true where the formula is. Any prefix can be split off again. -/
theorem prenex_keeps_order_and_meaning (f : Formula) (hf : f.NegationNormal)
    (hnodup : f.binders.Nodup) (hfree : ∀ x ∈ f.binders, x ∉ f.freeVars) :
    (∃ g, f.prenex = .ok g ∧ f.pullQuantifiers = .ok g.splitPrefix ∧
      g.splitPrefix.quantifiers = f.subformulas.filterMap binding? ∧
      g.splitPrefix.matrix = f.matrix ∧
      ∀ (D : Type u) [Nonempty D] (M : Interpretation D) (ρ : Assignment D),
        g.holds M ρ ↔ f.holds M ρ) ∧
    ∀ (qs : Prefix) (m : Formula), m.isQuant = false →
      (Prenex.formula ⟨qs, m⟩).splitPrefix = ⟨qs, m⟩ := by
  constructor
  · have hmatrix : f.matrix.isQuant = false := hf.matrix.quantifierFree.isQuant_eq_false
    have hsplit := Prenex.splitPrefix_formula f.quantifiers hmatrix
    refine ⟨Prenex.formula ⟨f.quantifiers, f.matrix⟩, prenex_eq hf.implicationFree, ?_, ?_, ?_, ?_⟩
    · rw [hsplit]
      exact pullQuantifiers_eq hf.implicationFree
    · rw [hsplit]
      exact f.quantifiers_eq_filterMap
    · rw [hsplit]
    · intro D _ M ρ
      exact holds_prenex M hf hnodup hfree ρ
  · exact fun qs m hm => Prenex.splitPrefix_formula qs hm

/-- The variables bound in the two operands differ, and the free one is bound nowhere. -/
theorem prenex_keeps_order_and_meaning_of_two_scopes :
    let P : Formula := .atom ⟨"P", [.var "x", .var "z"]⟩
    let Q : Formula := .not (.atom ⟨"Q", [.var "y", .var "w"]⟩)
    let f : Formula := .or (.all "x" P) (.ex "y" (.and (.all "w" Q) (.atom ⟨"R", []⟩)))
    let qs : Prefix := [(.all, "x"), (.ex, "y"), (.all, "w")]
    f.NegationNormal ∧ f.binders.Nodup ∧ (∀ x ∈ f.binders, x ∉ f.freeVars) ∧ P.isQuant = false ∧
      (∃ g, f.prenex = .ok g ∧ g.splitPrefix = ⟨qs, .or P (.and Q (.atom ⟨"R", []⟩))⟩ ∧
        ∀ (D : Type) [Nonempty D] (M : Interpretation D) (ρ : Assignment D),
          g.holds M ρ ↔ f.holds M ρ) ∧
      (Prenex.formula ⟨qs, P⟩).splitPrefix = ⟨qs, P⟩ := by
  intro P Q f qs
  have hf : f.NegationNormal :=
    .binary (Or.inr rfl) (.quant .all "x" (.atom _))
      (.quant .ex "y" (.binary (Or.inl rfl) (.quant .all "w" (.negated _)) (.atom _)))
  have hnodup : f.binders.Nodup := by decide
  have hfree : ∀ x ∈ f.binders, x ∉ f.freeVars := by decide
  obtain ⟨⟨g, hg, -, hquantifiers, hmatrix, hmeaning⟩, hsplit⟩ :=
    prenex_keeps_order_and_meaning.{0} f hf hnodup hfree
  refine ⟨hf, hnodup, hfree, rfl, ⟨g, hg, ?_, hmeaning⟩, hsplit qs P rfl⟩
  exact congrArg₂ Prenex.mk hquantifiers hmatrix

end Formula

end Clausification
