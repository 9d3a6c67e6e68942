import Mathlib.Data.List.Dedup
import Clausification.Proofs.Form.Skolem

/-!
# Universal quantifiers over free variables

The free variables of a formula may be quantified in front of it, or behind the quantifiers that were
pulled out of it. The second says more, as it makes no existential variable depend on them. It says the
same where none of them is free in the scope of an existential quantifier, however the scopes of other
quantifiers have been widened by pulling them out.
-/

namespace Clausification

universe u

/-- Universal quantifiers, one for each variable of a list. -/
def Prefix.closing (xs : List String) : Prefix := xs.dedup.map (Quantifier.all, ·)

namespace Formula

/-- A formula behind universal quantifiers over its free variables. -/
def closure (f : Formula) : Formula := Prenex.formula ⟨Prefix.closing f.freeVars, f⟩

/-- None of the variables is free in the scope of an existential quantifier. -/
def OutsideExistentials (xs : List String) : Formula → Prop
  | .atom _ | .term _ => True
  | .not f => f.OutsideExistentials xs
  | .binary _ l r => l.OutsideExistentials xs ∧ r.OutsideExistentials xs
  | .quant .all _ f => f.OutsideExistentials xs
  | .quant .ex _ f => (∀ x ∈ xs, x ∉ f.freeVars) ∧ f.OutsideExistentials xs

end Formula

theorem Quantifier.ranges_mono {D : Type u} (q : Quantifier) {p p' : D → Prop}
    (h : ∀ e, p e → p' e) : q.ranges p → q.ranges p' := by
  cases q with
  | all => exact fun hp e => h e (hp e)
  | ex => exact fun ⟨e, he⟩ => ⟨e, h e he⟩

namespace Prefix
variable {D : Type u}

/-- The truth of a proposition about assignments behind a prefix. -/
def ranges : Prefix → (Assignment D → Prop) → Assignment D → Prop
  | [], P, ρ => P ρ
  | (q, x) :: qs, P, ρ => q.ranges fun e => ranges qs P (Function.update ρ x e)

variable {P P' : Assignment D → Prop} {ρ : Assignment D}

theorem ranges_append (ps qs : Prefix) :
    Prefix.ranges (ps ++ qs) P ρ ↔ ps.ranges (qs.ranges P) ρ := by
  induction ps generalizing ρ with
  | nil => exact Iff.rfl
  | cons p ps ih => exact Quantifier.ranges_congr fun e => ih

theorem ranges_mono (qs : Prefix) (h : ∀ ρ, P ρ → P' ρ) : qs.ranges P ρ → qs.ranges P' ρ := by
  induction qs generalizing ρ with
  | nil => exact h ρ
  | cons p qs ih => exact p.1.ranges_mono fun e => ih

theorem ranges_map_all (xs : List String) : Prefix.ranges (xs.map (Quantifier.all, ·)) P ρ ↔
    ∀ ρ' : Assignment D, ρ'.AgreesOutside xs ρ → P ρ' := by
  induction xs generalizing ρ with
  | nil =>
    constructor
    · intro h ρ' hρ'
      rwa [show ρ' = ρ from funext fun x => hρ' x (by simp)]
    · intro h
      exact h ρ fun _ _ => rfl
  | cons x xs ih =>
    refine (forall_congr' fun e => ih).trans ?_
    constructor
    · intro h ρ' hρ'
      apply h (ρ' x)
      intro y hy
      by_cases hyx : y = x
      · rw [hyx, Function.update_self]
      · rw [Function.update_of_ne hyx]
        exact hρ' y (by simp [hyx, hy])
    · intro h e ρ' hρ'
      apply h
      intro y hy
      simp only [List.mem_cons, not_or] at hy
      rw [hρ' y hy.2, Function.update_of_ne hy.1]

theorem ranges_closing (xs : List String) : (closing xs).ranges P ρ ↔
    ∀ ρ' : Assignment D, ρ'.AgreesOutside xs ρ → P ρ' := by
  simpa [closing, Assignment.AgreesOutside] using ranges_map_all xs.dedup

theorem holds_formula [Nonempty D] (M : Interpretation D) (qs : Prefix) (f : Formula) :
    (Prenex.formula ⟨qs, f⟩).holds M ρ ↔ qs.ranges (f.holds M) ρ := by
  induction qs generalizing ρ with
  | nil => exact Iff.rfl
  | cons p qs ih => exact Quantifier.ranges_congr fun e => ih

end Prefix

namespace Formula
variable {D : Type u} [Nonempty D] (M : Interpretation D) (ρ : Assignment D)

theorem forall_holds_iff_of_freeVars_subset {f : Formula} {xs : List String} (h : f.freeVars ⊆ xs) :
    (∀ ρ' : Assignment D, ρ'.AgreesOutside xs ρ → f.holds M ρ') ↔ ∀ ρ', f.holds M ρ' := by
  constructor
  · intro hall ρ'
    let mixed : Assignment D := fun x => if x ∈ xs then ρ' x else ρ x
    have hmixed : f.holds M mixed := hall mixed fun x hx => if_neg hx
    exact (f.holds_congr_assignment fun x hx => if_pos (h hx)).mp hmixed
  · intro hall ρ' _
    exact hall ρ'

theorem holds_closure (f : Formula) : f.closure.holds M ρ ↔ ∀ ρ', f.holds M ρ' := by
  rw [closure, Prefix.holds_formula, Prefix.ranges_closing]
  exact forall_holds_iff_of_freeVars_subset M ρ (List.Subset.refl _)

end Formula

namespace Prefix

theorem map_snd_closing (xs : List String) : (closing xs).map Prod.snd = xs.dedup := by
  simp [closing, Function.comp_def]

theorem universals_append_closing (qs : Prefix) (xs : List String) :
    Prefix.universals (qs ++ closing xs) = qs.universals ++ xs.dedup := by
  induction qs with
  | nil =>
    rw [closing]
    induction xs.dedup with
    | nil => rfl
    | cons y ys ih => exact congrArg (y :: ·) ih
  | cons p qs ih =>
    obtain ⟨_ | _, x⟩ := p
    · exact congrArg (x :: ·) ih
    · exact ih

/-- Universal quantifiers behind the others give arguments to no Skolem term. -/
theorem skolemTerms_append_closing (qs : Prefix) (xs us : List String) (σ : Substitution)
    (names : Names) :
    skolemTerms (qs ++ closing xs) us σ names = skolemTerms qs us σ names := by
  induction qs generalizing us σ names with
  | nil =>
    rw [closing]
    induction xs.dedup generalizing us with
    | nil => rfl
    | cons y ys ih => exact ih _
  | cons p qs ih =>
    obtain ⟨_ | _, x⟩ := p
    · exact ih _ _ _
    · exact ih _ _ _

end Prefix

/-- What becomes of the truth of a formula in the place where it stands: as more is true there, more is
true of the whole, which does not speak of some variables outside that place. -/
structure Surroundings {D : Type u} (ys : List String) (C : Assignment D → Prop → Prop) : Prop where
  mono : ∀ ρ {p p' : Prop}, (p → p') → C ρ p → C ρ p'
  update : ∀ y ∈ ys, ∀ ρ e p, C (Function.update ρ y e) p ↔ C ρ p

namespace Surroundings
variable {D : Type u} {ys zs : List String} {C C' : Assignment D → Prop → Prop}

theorem of_subset (h : Surroundings ys C) (hzs : zs ⊆ ys) : Surroundings zs C :=
  ⟨h.mono, fun y hy => h.update y (hzs hy)⟩

theorem comp (h : Surroundings ys C) (h' : Surroundings ys C') :
    Surroundings ys fun ρ p => C ρ (C' ρ p) where
  mono ρ _ _ hp := h.mono ρ (h'.mono ρ hp)
  update y hy ρ e p := by rw [h.update y hy, propext (h'.update y hy ρ e p)]

section
variable [Nonempty D] {M : Interpretation D} {c : Connective} {f : Formula}

theorem joins_left (hc : c.IsJunction) (hf : ∀ y ∈ ys, y ∉ f.freeVars) :
    Surroundings ys fun ρ p => c.joins p (f.holds M ρ) where
  mono ρ _ _ hp := by
    rcases hc with rfl | rfl
    · exact And.imp_left hp
    · exact Or.imp_left hp
  update y hy ρ e p := by rw [Formula.holds_update_of_not_mem (hf y hy)]

theorem joins_right (hc : c.IsJunction) (hf : ∀ y ∈ ys, y ∉ f.freeVars) :
    Surroundings ys fun ρ p => c.joins (f.holds M ρ) p where
  mono ρ _ _ hp := by
    rcases hc with rfl | rfl
    · exact And.imp_right hp
    · exact Or.imp_right hp
  update y hy ρ e p := by rw [Formula.holds_update_of_not_mem (hf y hy)]

end

end Surroundings

namespace Formula
variable {D : Type u} [Nonempty D] {M : Interpretation D} {xs : List String} {f : Formula}
  {x : String}

/-- The surroundings of a quantifier do not notice that its variable has got a value. -/
theorem holds_quant_update {q : Quantifier} {ys : List String} {C : Assignment D → Prop → Prop}
    (hC : Surroundings ys C) (hx : x ∈ ys) {ρ : Assignment D}
    (h : ∀ ρ' : Assignment D, ρ'.AgreesOutside xs ρ → C ρ' ((quant q x f).holds M ρ')) {e : D}
    {ρ' : Assignment D} (hρ' : ρ'.AgreesOutside xs (Function.update ρ x e)) :
    C ρ' ((quant q x f).holds M ρ') := by
  have hback : Assignment.AgreesOutside xs (Function.update ρ' x (ρ x)) ρ := by
    intro y hy
    by_cases hyx : y = x
    · rw [hyx, Function.update_self]
    · rw [Function.update_of_ne hyx, hρ' y hy, Function.update_of_ne hyx]
  have hwhole := (hC.update x hx ρ' (ρ x) _).mp (h _ hback)
  simpa only [holds, Function.update_idem] using hwhole

/-- Outside the variables that the scope does not speak of, one element serves wherever one exists. -/
theorem exists_forall_holds_of_ex (hf : ∀ y ∈ xs, y ∉ f.freeVars) (ρ : Assignment D) :
    ∃ e, ∀ ρ' : Assignment D, ρ'.AgreesOutside xs (Function.update ρ x e) →
      (quant .ex x f).holds M ρ' → f.holds M ρ' := by
  refine ⟨Classical.epsilon fun e => f.holds M (Function.update ρ x e), ?_⟩
  intro ρ' hρ' hex
  obtain ⟨e, he⟩ := hex
  have hsame : ∀ y ∈ f.freeVars, ρ' y = Function.update ρ x _ y :=
    fun y hy => hρ' y fun hmem => hf y hmem hy
  have hexists : ∃ e, f.holds M (Function.update ρ x e) := by
    refine ⟨e, (f.holds_congr_assignment ?_).mp he⟩
    intro y hy
    by_cases hyx : y = x
    · rw [hyx, Function.update_self, Function.update_self]
    · rw [Function.update_of_ne hyx, hsame y hy, Function.update_of_ne hyx,
        Function.update_of_ne hyx]
  exact (f.holds_congr_assignment hsame).mpr (Classical.epsilon_spec hexists)

/-- Without the variables in the scope of an existential quantifier, what is true for all their values
stays so when the quantifiers are pulled out in front of them. -/
theorem NegationNormal.ranges_matrix (hf : f.NegationNormal) (hnodup : f.binders.Nodup)
    (hfree : ∀ y ∈ f.binders, y ∉ f.freeVars) (hxs : f.OutsideExistentials xs)
    {C : Assignment D → Prop → Prop} (hC : Surroundings f.binders C) {ρ : Assignment D}
    (h : ∀ ρ' : Assignment D, ρ'.AgreesOutside xs ρ → C ρ' (f.holds M ρ')) :
    f.quantifiers.ranges
      (fun τ => ∀ τ' : Assignment D, τ'.AgreesOutside xs τ → C τ' (f.matrix.holds M τ')) ρ := by
  induction hf generalizing C ρ with
  | atom a => exact h
  | negated a => exact h
  | @binary c l r hc _ _ ihl ihr =>
    obtain ⟨hnl, hnr, hdisj⟩ := List.nodup_append.mp hnodup
    simp only [binders, freeVars, List.mem_append, not_or] at hfree
    -- the right operand belongs to the surroundings of the left one, and the matrix of the left one
    -- to those of the right one
    have hl := ihl hnl (fun y hy => (hfree y (Or.inl hy)).1) hxs.1
      ((hC.of_subset (List.subset_append_left ..)).comp
        (.joins_left hc fun y hy => (hfree y (Or.inl hy)).2)) h
    have hmatrix : ∀ y ∈ r.binders, y ∉ l.matrix.freeVars := by
      intro y hy hmem
      rcases mem_freeVars_matrix hmem with hmem | hmem
      · exact (hfree y (Or.inr hy)).1 hmem
      · exact hdisj y hmem y hy rfl
    rw [quantifiers, Prefix.ranges_append]
    apply Prefix.ranges_mono _ _ hl
    intro τ hτ
    exact ihr hnr (fun y hy => (hfree y (Or.inr hy)).2) hxs.2
      ((hC.of_subset (List.subset_append_right ..)).comp (.joins_right hc hmatrix)) hτ
  | @quant q x f _ ih =>
    obtain ⟨hx, hn⟩ := List.nodup_cons.mp hnodup
    have hfree' : ∀ y ∈ f.binders, y ∉ f.freeVars := by
      intro y hy hmem
      have hyx : y ≠ x := fun he => hx (he ▸ hy)
      exact hfree y (List.mem_cons_of_mem x hy) (mem_freeVars_quant.mpr ⟨hmem, hyx⟩)
    have hC' := hC.of_subset (List.subset_cons_self x f.binders)
    cases q with
    | all =>
      intro e
      apply ih hn hfree' hxs hC'
      intro ρ' hρ'
      apply hC.mono ρ' _ (holds_quant_update hC List.mem_cons_self h hρ')
      intro hall
      have hvalue : f.holds M (Function.update ρ' x (ρ' x)) := hall (ρ' x)
      rwa [Function.update_eq_self] at hvalue
    | ex =>
      obtain ⟨e, he⟩ := exists_forall_holds_of_ex (M := M) (x := x) hxs.1 ρ
      refine ⟨e, ih hn hfree' hxs.2 hC' ?_⟩
      intro ρ' hρ'
      exact hC.mono ρ' (he ρ' hρ') (holds_quant_update hC List.mem_cons_self h hρ')

end Formula

end Clausification
