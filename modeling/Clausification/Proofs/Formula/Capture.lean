import Clausification.Proofs.Substitution

/-!
# Substitution without capture

Putting terms in for free variables says the same as changing what the variables stand for, as long
as no quantifier gets hold of a variable of a term that is put in below it. Such a substitution is
free of capture; it always is on a formula without quantifiers.
-/

namespace Clausification

universe u

namespace Formula

/-- The free occurrences of variables, left to right, each with the variables of the quantifiers it
stands under, outermost first. -/
def freeOccurrences : Formula → List (String × List String)
  | .atom a => a.vars.map (·, [])
  | .not f => f.freeOccurrences
  | .binary _ l r => l.freeOccurrences ++ r.freeOccurrences
  | .quant _ x f => (f.freeOccurrences.filter (·.1 ≠ x)).map fun (y, above) => (y, x :: above)
  | .term _ => []

/-- No free occurrence of a variable that is replaced stands under a quantifier over a variable of
the term put in for it. -/
def CaptureFree (σ : Substitution) (f : Formula) : Prop :=
  ∀ o ∈ f.freeOccurrences, ∀ t ∈ σ.lookup o.1, ∀ x ∈ o.2, x ∉ t.vars

instance (σ : Substitution) (f : Formula) : Decidable (f.CaptureFree σ) :=
  inferInstanceAs (Decidable (∀ o ∈ f.freeOccurrences, ∀ t ∈ σ.lookup o.1, ∀ x ∈ o.2, x ∉ t.vars))

variable {f l r : Formula} {σ : Substitution} {c : Connective} {q : Quantifier} {x y : String}

theorem map_fst_freeOccurrences (f : Formula) : f.freeOccurrences.map Prod.fst = f.freeVars := by
  induction f with
  | atom a =>
    rw [freeOccurrences, freeVars, List.map_map]
    exact List.map_id' a.vars
  | not f ih => exact ih
  | binary c l r ihl ihr => rw [freeOccurrences, freeVars, List.map_append, ihl, ihr]
  | quant q x f ih =>
    rw [freeOccurrences, freeVars, ← ih, List.filter_map, List.map_map]
    rfl
  | term t => rfl

theorem exists_mem_freeOccurrences (hy : y ∈ f.freeVars) :
    ∃ above, (y, above) ∈ f.freeOccurrences := by
  rw [← map_fst_freeOccurrences, List.mem_map] at hy
  obtain ⟨⟨y, above⟩, hmem, rfl⟩ := hy
  exact ⟨above, hmem⟩

theorem mem_freeOccurrences_quant {above : List String} (hy : (y, above) ∈ f.freeOccurrences)
    (hyx : y ≠ x) : (y, x :: above) ∈ (quant q x f).freeOccurrences :=
  List.mem_map.mpr ⟨(y, above), List.mem_filter.mpr ⟨hy, decide_eq_true hyx⟩, rfl⟩

theorem above_subset_binders {above : List String} (hy : (y, above) ∈ f.freeOccurrences) :
    above ⊆ f.binders := by
  induction f generalizing above with
  | atom a =>
    obtain ⟨z, -, hz⟩ := List.mem_map.mp hy
    cases hz
    exact List.nil_subset _
  | not f ih => exact ih hy
  | binary c l r ihl ihr =>
    rcases List.mem_append.mp hy with hy | hy
    · exact List.subset_append_of_subset_left _ (ihl hy)
    · exact List.subset_append_of_subset_right _ (ihr hy)
  | quant q x f ih =>
    obtain ⟨⟨z, above'⟩, hz, heq⟩ := List.mem_map.mp hy
    cases heq
    exact List.cons_subset_cons x (ih (List.mem_of_mem_filter hz))
  | term t => exact nomatch hy

theorem captureFree_binary :
    (binary c l r).CaptureFree σ ↔ l.CaptureFree σ ∧ r.CaptureFree σ := by
  rw [CaptureFree, freeOccurrences, List.forall_mem_append]
  rfl

theorem CaptureFree.body (h : (quant q x f).CaptureFree σ) : f.CaptureFree (σ.hide x) := by
  rintro ⟨y, above⟩ hy t ht z hz
  have hyx : y ≠ x := by
    rintro rfl
    rw [σ.lookup_hide_self] at ht
    exact nomatch ht
  rw [σ.lookup_hide_of_ne hyx] at ht
  exact h (y, x :: above) (mem_freeOccurrences_quant hy hyx) t ht z (List.mem_cons_of_mem x hz)

/-- The variable of a quantifier is not among those of what is put in for another free variable of
its body. -/
theorem CaptureFree.not_mem_vars (h : (quant q x f).CaptureFree σ) (hy : y ∈ f.freeVars)
    (hyx : y ≠ x) : x ∉ (σ.get y).vars := by
  obtain ⟨above, hmem⟩ := exists_mem_freeOccurrences hy
  cases hlookup : σ.lookup y with
  | none =>
    rw [Substitution.get, hlookup]
    exact fun hx => hyx (List.mem_singleton.mp hx).symm
  | some t =>
    rw [Substitution.get, hlookup]
    exact h (y, x :: above) (mem_freeOccurrences_quant hmem hyx) t hlookup x List.mem_cons_self

theorem QuantifierFree.captureFree (hf : f.QuantifierFree) (σ : Substitution) :
    f.CaptureFree σ := by
  intro o ho t _ x hx
  have hbinder : x ∈ f.binders := above_subset_binders ho hx
  rw [hf.binders_eq_nil] at hbinder
  exact nomatch hbinder

section
variable {D : Type u} [Nonempty D] (M : Interpretation D)

/-- The law of substitution: the formula with the terms put in is true exactly if the formula is
where every replaced variable has the value of the term put in for it. -/
theorem holds_replace (h : f.CaptureFree σ) (ρ : Assignment D) :
    (f.replace σ).holds M ρ ↔ f.holds M (σ.values M ρ) := by
  induction f generalizing σ ρ with
  | atom a => exact a.holds_replace M σ ρ
  | not f ih => exact not_congr (ih h ρ)
  | binary c l r ihl ihr =>
    obtain ⟨hl, hr⟩ := captureFree_binary.mp h
    exact Connective.joins_congr (ihl hl ρ) (ihr hr ρ)
  | quant q x f ih =>
    refine Quantifier.ranges_congr fun e => (ih h.body _).trans ?_
    -- below the quantifier its variable has the new element for value; no other value changes
    refine f.holds_congr_assignment fun y hy => ?_
    by_cases hyx : y = x
    · rw [hyx, Function.update_self, Substitution.values, σ.get_hide_self, Term.value,
        Function.update_self]
    · rw [Function.update_of_ne hyx, Substitution.values, σ.get_hide_of_ne hyx]
      refine Term.value_congr _ (fun z hz => Function.update_of_ne ?_ ..) fun _ _ => rfl
      rintro rfl
      exact h.not_mem_vars hy hyx hz
  | term t => exact Iff.rfl

theorem QuantifierFree.holds_replace (hf : f.QuantifierFree) (σ : Substitution)
    (ρ : Assignment D) : (f.replace σ).holds M ρ ↔ f.holds M (σ.values M ρ) :=
  Formula.holds_replace M (hf.captureFree σ) ρ

end

/-- Substitution into a well-formed formula does not stop. If it is free of capture, its result is
true where the formula is with the values of the terms put in, of all at once, for those of the
variables. Always, what is put in for free variables decides the result, and it is the formula
itself if none of them is replaced. -/
theorem substitution_changes_values (f : Formula) (hf : f.wellFormed) (σ : Substitution) :
    ∃ g, f.substitute σ = .ok g ∧
      (f.CaptureFree σ → ∀ (D : Type u) [Nonempty D] (M : Interpretation D) (ρ : Assignment D),
        g.holds M ρ ↔ f.holds M (σ.values M ρ)) ∧
      (∀ τ : Substitution, (∀ x ∈ f.freeVars, τ.get x = σ.get x) → f.substitute τ = .ok g) ∧
      ((∀ x ∈ f.freeVars, σ.lookup x = none) → g = f) := by
  refine ⟨f.replace σ, substitute_eq hf σ, ?_, ?_, ?_⟩
  · intro hfree D _ M ρ
    exact holds_replace M hfree ρ
  · intro τ hτ
    rw [substitute_eq hf τ, replace_congr hτ]
  · intro hnone
    have hget : ∀ x ∈ f.freeVars, σ.get x = Substitution.get [] x := fun x hx => by
      rw [Substitution.get, hnone x hx]
      rfl
    rw [replace_congr hget, f.replace_nil]

/-- Each of two variables is replaced by a term over the other; one of them is bound elsewhere. -/
theorem substitution_changes_values_of_exchange :
    let bound : Formula := .ex "x" (.atom ⟨"Q", [.var "x", .app "h" [.var "z"]]⟩)
    let f : Formula := .and
      (.all "z" (.atom ⟨"P", [.var "z", .app "g" [.var "x"], .var "y"]⟩)) bound
    let g : Formula := .and
      (.all "z" (.atom ⟨"P", [.var "z", .app "g" [.app "s" [.var "y"]], .var "x"]⟩)) bound
    let σ : Substitution := [("x", .app "s" [.var "y"]), ("y", .var "x")]
    f.wellFormed ∧ f.CaptureFree σ ∧ f.substitute σ = .ok g ∧
      (∀ (D : Type) [Nonempty D] (M : Interpretation D) (ρ : Assignment D),
        g.holds M ρ ↔ f.holds M (σ.values M ρ)) ∧
      (∀ t, f.substitute (("u", t) :: σ) = .ok g) ∧
      (∀ x ∈ bound.freeVars, σ.lookup x = none) ∧ bound.substitute σ = .ok bound := by
  intro bound f g σ
  have hf : f.wellFormed := rfl
  have hfree : f.CaptureFree σ := by decide
  have hbound : ∀ x ∈ bound.freeVars, σ.lookup x = none := by decide
  obtain ⟨k, hk, hmeaning, hcongr, -⟩ := substitution_changes_values.{0} f hf σ
  obtain ⟨k', hk', -, -, hsame⟩ := substitution_changes_values.{0} bound rfl σ
  obtain rfl : g = k := Except.ok.inj ((substitute_eq hf σ).symm.trans hk)
  refine ⟨hf, hfree, hk, hmeaning hfree, fun t => hcongr _ fun x hx => ?_, hbound, ?_⟩
  · have hxu : x ≠ "u" := by
      rintro rfl
      exact absurd hx (by decide)
    exact Substitution.get_cons_of_ne σ t hxu
  · rw [hk', hsame hbound]

end Formula

end Clausification
