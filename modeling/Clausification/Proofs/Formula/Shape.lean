import Clausification.Proofs.Formula.Occurrence

/-!
# Shapes of formulas

The classes of formulas between which the stages of a derivation lead, each smaller than the one
before: formulas without implications, negation normal forms, and negation normal forms without
quantifiers. Beside them stand the formulas that distribution accepts, with negations of anything, and
the formulas without quantifiers, in which nothing is bound.
-/

namespace Clausification

/-- A conjunction or a disjunction. -/
def Connective.IsJunction (c : Connective) : Prop := c = .and ∨ c = .or

theorem Connective.IsJunction.dual {c : Connective} (hc : c.IsJunction) : c.dual.IsJunction := by
  rcases hc with rfl | rfl
  · exact Or.inr rfl
  · exact Or.inl rfl

namespace Formula

/-- No term in the place of a formula. -/
inductive Proper : Formula → Prop
  | atom (a : Atom) : Proper (.atom a)
  | not {f : Formula} (hf : Proper f) : Proper (.not f)
  | binary (c : Connective) {l r : Formula} (hl : Proper l) (hr : Proper r) :
    Proper (.binary c l r)
  | quant (q : Quantifier) (x : String) {f : Formula} (hf : Proper f) : Proper (.quant q x f)

/-- Neither implications nor equivalences, and no term in the place of a formula. -/
inductive ImplicationFree : Formula → Prop
  | atom (a : Atom) : ImplicationFree (.atom a)
  | not {f : Formula} (hf : ImplicationFree f) : ImplicationFree (.not f)
  | binary {c : Connective} {l r : Formula} (hc : c.IsJunction) (hl : ImplicationFree l)
    (hr : ImplicationFree r) : ImplicationFree (.binary c l r)
  | quant (q : Quantifier) (x : String) {f : Formula} (hf : ImplicationFree f) :
    ImplicationFree (.quant q x f)

/-- Implication-free, with negations on atoms only. -/
inductive NegationNormal : Formula → Prop
  | atom (a : Atom) : NegationNormal (.atom a)
  | negated (a : Atom) : NegationNormal (.not (.atom a))
  | binary {c : Connective} {l r : Formula} (hc : c.IsJunction) (hl : NegationNormal l)
    (hr : NegationNormal r) : NegationNormal (.binary c l r)
  | quant (q : Quantifier) (x : String) {f : Formula} (hf : NegationNormal f) :
    NegationNormal (.quant q x f)

/-- Literals under conjunctions and disjunctions. -/
inductive Matrix : Formula → Prop
  | atom (a : Atom) : Matrix (.atom a)
  | negated (a : Atom) : Matrix (.not (.atom a))
  | binary {c : Connective} {l r : Formula} (hc : c.IsJunction) (hl : Matrix l) (hr : Matrix r) :
    Matrix (.binary c l r)

/-- Atoms under negations, conjunctions and disjunctions. -/
inductive Boolean : Formula → Prop
  | atom (a : Atom) : Boolean (.atom a)
  | not {f : Formula} (hf : Boolean f) : Boolean (.not f)
  | binary {c : Connective} {l r : Formula} (hc : c.IsJunction) (hl : Boolean l) (hr : Boolean r) :
    Boolean (.binary c l r)

/-- No quantifiers, and no term in the place of a formula. -/
inductive QuantifierFree : Formula → Prop
  | atom (a : Atom) : QuantifierFree (.atom a)
  | not {f : Formula} (hf : QuantifierFree f) : QuantifierFree (.not f)
  | binary (c : Connective) {l r : Formula} (hl : QuantifierFree l) (hr : QuantifierFree r) :
    QuantifierFree (.binary c l r)

theorem proper_of_wellFormed {f : Formula} (hf : f.wellFormed) : f.Proper := by
  induction f with
  | atom a => exact .atom a
  | not f ih => exact .not (ih hf)
  | binary c l r ihl ihr =>
    simp only [wellFormed, Bool.and_eq_true] at hf
    exact .binary c (ihl hf.1) (ihr hf.2)
  | quant q x f ih => exact .quant q x (ih hf)
  | term t => simp [wellFormed] at hf

theorem ImplicationFree.proper {f : Formula} (hf : f.ImplicationFree) : f.Proper := by
  induction hf with
  | atom a => exact .atom a
  | not _ ih => exact .not ih
  | binary hc _ _ ihl ihr => exact .binary _ ihl ihr
  | quant q x _ ih => exact .quant q x ih

theorem NegationNormal.implicationFree {f : Formula} (hf : f.NegationNormal) :
    f.ImplicationFree := by
  induction hf with
  | atom a => exact .atom a
  | negated a => exact .not (.atom a)
  | binary hc _ _ ihl ihr => exact .binary hc ihl ihr
  | quant q x _ ih => exact .quant q x ih

theorem Matrix.negationNormal {f : Formula} (hf : f.Matrix) : f.NegationNormal := by
  induction hf with
  | atom a => exact .atom a
  | negated a => exact .negated a
  | binary hc _ _ ihl ihr => exact .binary hc ihl ihr

theorem Matrix.quantifierFree {f : Formula} (hf : f.Matrix) : f.QuantifierFree := by
  induction hf with
  | atom a => exact .atom a
  | negated a => exact .not (.atom a)
  | binary hc _ _ ihl ihr => exact .binary _ ihl ihr

theorem Matrix.boolean {f : Formula} (hf : f.Matrix) : f.Boolean := by
  induction hf with
  | atom a => exact .atom a
  | negated a => exact .not (.atom a)
  | binary hc _ _ ihl ihr => exact .binary hc ihl ihr

theorem Boolean.matrix {f : Formula} (hf : f.Boolean) (hnormal : f.NegationNormal) : f.Matrix := by
  induction hnormal with
  | atom a => exact .atom a
  | negated a => exact .negated a
  | binary hc _ _ ihl ihr =>
    cases hf with
    | binary _ hl hr => exact .binary hc (ihl hl) (ihr hr)
  | quant q x _ _ => nomatch hf

theorem forall_mem_atoms_binary {p : Atom → Prop} {c : Connective} {l r : Formula} :
    (∀ a ∈ (binary c l r).atoms, p a) ↔ (∀ a ∈ l.atoms, p a) ∧ ∀ a ∈ r.atoms, p a := by
  simp only [atoms, List.mem_append]
  exact ⟨fun h => ⟨fun a ha => h a (Or.inl ha), fun a ha => h a (Or.inr ha)⟩,
    fun h a ha => ha.elim (h.1 a) (h.2 a)⟩

/-- Without misplaced terms, a formula is as well-formed as its atoms. -/
theorem ImplicationFree.wellFormed_iff {f : Formula} (hf : f.ImplicationFree) :
    f.wellFormed ↔ ∀ a ∈ f.atoms, a.wellFormed := by
  induction hf with
  | atom a => simp [wellFormed, atoms]
  | not _ ih => exact ih
  | binary hc _ _ ihl ihr => rw [wellFormed, Bool.and_eq_true, forall_mem_atoms_binary, ihl, ihr]
  | quant q x _ ih => exact ih

theorem QuantifierFree.wellFormed_iff {f : Formula} (hf : f.QuantifierFree) :
    f.wellFormed ↔ ∀ a ∈ f.atoms, a.wellFormed := by
  induction hf with
  | atom a => simp [wellFormed, atoms]
  | not _ ih => exact ih
  | binary c _ _ ihl ihr => rw [wellFormed, Bool.and_eq_true, forall_mem_atoms_binary, ihl, ihr]

theorem atom_wellFormed_of_wellFormed {f : Formula} (hf : f.wellFormed) :
    ∀ a ∈ f.atoms, a.wellFormed := by
  induction f with
  | atom a => simpa [wellFormed, atoms] using hf
  | not f ih => exact ih hf
  | binary c l r ihl ihr =>
    simp only [wellFormed, Bool.and_eq_true] at hf
    exact forall_mem_atoms_binary.mpr ⟨ihl hf.1, ihr hf.2⟩
  | quant q x f ih => exact ih hf
  | term t => simp [wellFormed] at hf

theorem QuantifierFree.binders_eq_nil {f : Formula} (hf : f.QuantifierFree) : f.binders = [] := by
  induction hf with
  | atom a => rfl
  | not _ ih => exact ih
  | binary c _ _ ihl ihr => rw [binders, ihl, ihr, List.append_nil]

/-- Where nothing is bound, all variables of the atoms are free. -/
theorem QuantifierFree.mem_freeVars {f : Formula} (hf : f.QuantifierFree) {x : String} :
    x ∈ f.freeVars ↔ ∃ a ∈ f.atoms, x ∈ a.vars := by
  induction hf with
  | atom a => simp [freeVars, atoms]
  | not _ ih => exact ih
  | binary c _ _ ihl ihr =>
    simp only [freeVars, atoms, List.mem_append, ihl, ihr]
    constructor
    · rintro (⟨a, ha, hx⟩ | ⟨a, ha, hx⟩)
      · exact ⟨a, Or.inl ha, hx⟩
      · exact ⟨a, Or.inr ha, hx⟩
    · rintro ⟨a, ha | ha, hx⟩
      · exact Or.inl ⟨a, ha, hx⟩
      · exact Or.inr ⟨a, ha, hx⟩

theorem forall_mem_subformulas {P : Formula → Prop} (hP : ∀ f, P f → ∀ g ∈ f.children, P g)
    {f : Formula} (hf : P f) : ∀ g ∈ f.subformulas, P g := by
  induction f with
  | atom a => exact List.forall_mem_singleton.mpr hf
  | term t => exact List.forall_mem_singleton.mpr hf
  | not f ih => exact List.forall_mem_cons.mpr ⟨hf, ih (hP _ hf f (by simp [children]))⟩
  | quant q x f ih => exact List.forall_mem_cons.mpr ⟨hf, ih (hP _ hf f (by simp [children]))⟩
  | binary c l r ihl ihr =>
    have hl : ∀ g ∈ l.subformulas, P g := ihl (hP _ hf l (by simp [children]))
    have hr : ∀ g ∈ r.subformulas, P g := ihr (hP _ hf r (by simp [children]))
    exact List.forall_mem_cons.mpr ⟨hf, List.forall_mem_append.mpr ⟨hl, hr⟩⟩

/-- What a node of some kind takes over from the nodes below it holds of a formula with nodes of that
kind only. -/
theorem of_forall_mem_subformulas {P Q : Formula → Prop}
    (hP : ∀ f, Q f → (∀ k ∈ f.children, P k) → P f) {f : Formula}
    (hQ : ∀ g ∈ f.subformulas, Q g) : P f := by
  induction f with
  | atom a => exact hP _ (hQ _ List.mem_cons_self) fun _ hk => nomatch hk
  | term t => exact hP _ (hQ _ List.mem_cons_self) fun _ hk => nomatch hk
  | not f ih =>
    obtain ⟨hnode, hbelow⟩ := List.forall_mem_cons.mp hQ
    exact hP _ hnode (List.forall_mem_singleton.mpr (ih hbelow))
  | quant q x f ih =>
    obtain ⟨hnode, hbelow⟩ := List.forall_mem_cons.mp hQ
    exact hP _ hnode (List.forall_mem_singleton.mpr (ih hbelow))
  | binary c l r ihl ihr =>
    obtain ⟨hnode, hbelow⟩ := List.forall_mem_cons.mp hQ
    obtain ⟨hl, hr⟩ := List.forall_mem_append.mp hbelow
    exact hP _ hnode (List.forall_mem_cons.mpr ⟨ihl hl, List.forall_mem_singleton.mpr (ihr hr)⟩)

variable {f g : Formula}

theorem Proper.of_mem_children (hf : f.Proper) : ∀ g ∈ f.children, g.Proper := by
  cases hf with
  | atom a => exact fun _ hg => nomatch hg
  | not hf => exact List.forall_mem_singleton.mpr hf
  | binary _ hl hr => exact List.forall_mem_cons.mpr ⟨hl, List.forall_mem_singleton.mpr hr⟩
  | quant _ _ hf => exact List.forall_mem_singleton.mpr hf

theorem ImplicationFree.of_mem_children (hf : f.ImplicationFree) :
    ∀ g ∈ f.children, g.ImplicationFree := by
  cases hf with
  | atom a => exact fun _ hg => nomatch hg
  | not hf => exact List.forall_mem_singleton.mpr hf
  | binary _ hl hr => exact List.forall_mem_cons.mpr ⟨hl, List.forall_mem_singleton.mpr hr⟩
  | quant _ _ hf => exact List.forall_mem_singleton.mpr hf

theorem NegationNormal.of_mem_children (hf : f.NegationNormal) :
    ∀ g ∈ f.children, g.NegationNormal := by
  cases hf with
  | atom a => exact fun _ hg => nomatch hg
  | negated a => exact List.forall_mem_singleton.mpr (.atom a)
  | binary _ hl hr => exact List.forall_mem_cons.mpr ⟨hl, List.forall_mem_singleton.mpr hr⟩
  | quant _ _ hf => exact List.forall_mem_singleton.mpr hf

theorem QuantifierFree.of_mem_children (hf : f.QuantifierFree) :
    ∀ g ∈ f.children, g.QuantifierFree := by
  cases hf with
  | atom a => exact fun _ hg => nomatch hg
  | not hf => exact List.forall_mem_singleton.mpr hf
  | binary _ hl hr => exact List.forall_mem_cons.mpr ⟨hl, List.forall_mem_singleton.mpr hr⟩

theorem wellFormed_of_mem_children (hf : f.wellFormed) : ∀ g ∈ f.children, g.wellFormed := by
  cases f with
  | atom a => exact fun _ hg => nomatch hg
  | not f => exact List.forall_mem_singleton.mpr hf
  | binary c l r =>
    simp only [wellFormed, Bool.and_eq_true] at hf
    exact List.forall_mem_cons.mpr ⟨hf.1, List.forall_mem_singleton.mpr hf.2⟩
  | quant q x f => exact List.forall_mem_singleton.mpr hf
  | term t => exact fun _ hg => nomatch hg

theorem symbols_subset_of_mem_children (f : Formula) : ∀ g ∈ f.children, g.symbols ⊆ f.symbols := by
  cases f with
  | atom a => exact fun _ hg => nomatch hg
  | not f => exact List.forall_mem_singleton.mpr (List.Subset.refl _)
  | binary c l r =>
    exact List.forall_mem_cons.mpr ⟨List.subset_append_left _ _,
      List.forall_mem_singleton.mpr (List.subset_append_right _ _)⟩
  | quant q x f => exact List.forall_mem_singleton.mpr (List.subset_cons_self x _)
  | term t => exact fun _ hg => nomatch hg

theorem wellFormed_of_mem_subformulas (hf : f.wellFormed) (hg : g ∈ f.subformulas) :
    g.wellFormed :=
  forall_mem_subformulas (P := (·.wellFormed)) (fun _ => wellFormed_of_mem_children) hf g hg

theorem symbols_subset_of_mem_subformulas (hg : g ∈ f.subformulas) : g.symbols ⊆ f.symbols :=
  forall_mem_subformulas (P := (·.symbols ⊆ f.symbols))
    (fun _ hsubset k hk => List.Subset.trans (symbols_subset_of_mem_children _ k hk) hsubset)
    (List.Subset.refl _) g hg

theorem Proper.of_mem_subformulas (hf : f.Proper) (hg : g ∈ f.subformulas) : g.Proper :=
  forall_mem_subformulas (fun _ => Proper.of_mem_children) hf g hg

theorem Proper.of_children (hterm : ∀ t, f ≠ .term t) (hkids : ∀ k ∈ f.children, k.Proper) :
    f.Proper := by
  cases f with
  | atom a => exact .atom a
  | not f => exact .not (hkids f (by simp [children]))
  | binary c l r => exact .binary c (hkids l (by simp [children])) (hkids r (by simp [children]))
  | quant q x f => exact .quant q x (hkids f (by simp [children]))
  | term t => exact absurd rfl (hterm t)

theorem ImplicationFree.of_children (hterm : ∀ t, f ≠ .term t)
    (hkind : f.kind ≠ .binary .implies ∧ f.kind ≠ .binary .iff)
    (hkids : ∀ k ∈ f.children, k.ImplicationFree) : f.ImplicationFree := by
  cases f with
  | atom a => exact .atom a
  | not f => exact .not (hkids f (by simp [children]))
  | binary c l r =>
    have hl := hkids l (by simp [children])
    have hr := hkids r (by simp [children])
    cases c with
    | and => exact .binary (Or.inl rfl) hl hr
    | or => exact .binary (Or.inr rfl) hl hr
    | implies => exact absurd rfl hkind.1
    | iff => exact absurd rfl hkind.2
  | quant q x f => exact .quant q x (hkids f (by simp [children]))
  | term t => exact absurd rfl (hterm t)

theorem ImplicationFree.of_mem_subformulas (hf : f.ImplicationFree) (hg : g ∈ f.subformulas) :
    g.ImplicationFree :=
  forall_mem_subformulas (fun _ => ImplicationFree.of_mem_children) hf g hg

theorem NegationNormal.of_mem_subformulas (hf : f.NegationNormal) (hg : g ∈ f.subformulas) :
    g.NegationNormal :=
  forall_mem_subformulas (fun _ => NegationNormal.of_mem_children) hf g hg

theorem ImplicationFree.kind_ne (hf : f.ImplicationFree) :
    f.kind ≠ .binary .implies ∧ f.kind ≠ .binary .iff := by
  cases hf with
  | binary hc _ _ => rcases hc with rfl | rfl <;> simp [kind]
  | _ => simp [kind]

theorem QuantifierFree.isQuant_eq_false (hf : f.QuantifierFree) : f.isQuant = false := by
  cases hf <;> rfl

theorem QuantifierFree.any_isQuant (hf : f.QuantifierFree) :
    f.subformulas.any (·.isQuant) = false :=
  List.any_eq_false.mpr fun g hg =>
    Bool.eq_false_iff.mp
      (forall_mem_subformulas (fun _ => QuantifierFree.of_mem_children) hf g hg).isQuant_eq_false

/-- No node built by `upper` has an operand built by `lower`. -/
def NeverOver (upper lower : Connective) (f : Formula) : Prop :=
  ∀ l r, binary upper l r ∈ f.subformulas → l.kind ≠ .binary lower ∧ r.kind ≠ .binary lower

theorem neverOver_atom (upper lower : Connective) (a : Atom) : (atom a).NeverOver upper lower :=
  fun _ _ h => nomatch List.mem_singleton.mp h

theorem neverOver_not {upper lower : Connective} :
    (not f).NeverOver upper lower ↔ f.NeverOver upper lower := by
  simp [NeverOver, subformulas]

theorem neverOver_binary {upper lower c : Connective} {l r : Formula} :
    (binary c l r).NeverOver upper lower ↔
      (c = upper → l.kind ≠ .binary lower ∧ r.kind ≠ .binary lower) ∧
        l.NeverOver upper lower ∧ r.NeverOver upper lower := by
  simp only [NeverOver, subformulas, List.mem_cons, List.mem_append]
  constructor
  · intro h
    exact ⟨fun hc => h l r (Or.inl (hc ▸ rfl)), fun l' r' hmem => h l' r' (Or.inr (Or.inl hmem)),
      fun l' r' hmem => h l' r' (Or.inr (Or.inr hmem))⟩
  · rintro ⟨htop, hl, hr⟩ l' r' (heq | hmem | hmem)
    · cases heq
      exact htop rfl
    · exact hl l' r' hmem
    · exact hr l' r' hmem

end Formula

end Clausification
