import Clausification.Proofs.Derivation.Forms

/-!
# Clauses keep the meaning

A formula is true exactly if its Skolem symbols can be interpreted so that all its clauses are true
whatever their other variables stand for. Each stage adds one link; the links to the Skolem form are
equivalences in one interpretation, the one over it changes the interpretation.
-/

namespace Clausification

universe u

/-- Some interpretation over a non-empty domain makes the formula true. -/
def Formula.Satisfiable (f : Formula) : Prop :=
  ∃ (D : Type u) (_ : Nonempty D) (M : Interpretation D) (ρ : Assignment D), f.holds M ρ

/-- Some interpretation over a non-empty domain makes all clauses true, whatever the variables stand
for. -/
def Clause.Satisfiable (cs : List Clause) : Prop :=
  ∃ (D : Type u) (_ : Nonempty D) (M : Interpretation D),
    ∀ ρ : Assignment D, ∀ c ∈ cs, Clause.holds M ρ c

namespace Formula
variable {D : Type u} [Nonempty D] (M : Interpretation D) {f : Formula}

theorem holds_renamed (hf : f.wellFormed) (ρ : Assignment D) :
    f.plainForms.renamed.holds M ρ ↔ f.holds M ρ := by
  calc f.plainForms.renamed.holds M ρ
      ↔ f.plainForms.negationNormal.holds M ρ := (f.alphaEquivalent_renamed.holds_iff M ρ).symm
    _ ↔ f.plainForms.implicationFree.holds M ρ := (holds_signed M (implicationFree_plainForms hf) ρ).1
    _ ↔ f.holds M ρ := holds_withoutImplications M f ρ

theorem holds_prenexForm (hf : f.wellFormed) (ρ : Assignment D) :
    f.plainForms.prenex.holds M ρ ↔ f.holds M ρ := by
  refine (holds_prenex M (renamed_plainForms hf) f.binders_renamed_nodup ?_ ρ).trans
    (holds_renamed M hf ρ)
  exact fun x hx hfree => f.binders_renamed_fresh x hx
    (f.freeVars_subset_symbols (f.mem_freeVars_renamed.mp hfree))

theorem functions_matrix_subset_taken (f : Formula) :
    f.renamedForm.1.matrix.functions ⊆ f.renamedForm.2.taken := by
  intro g hg
  rw [functions, atoms_matrix] at hg
  exact f.symbols_subset_renamedForm (f.functions_subset_symbols (f.functions_renamed_subset hg))

theorem holds_skolemForm (hf : f.wellFormed) (ρ : Assignment D) :
    f.holds M ρ ↔ ∃ M', M'.AgreesOutside f.plainForms.skolemSymbols M ∧
      ∀ ρ' : Assignment D, ρ'.AgreesOutside f.renamedForm.1.quantifiers.universals ρ →
        f.plainForms.skolem.holds M' ρ' := by
  have hnodup : (f.renamedForm.1.quantifiers.map Prod.snd).Nodup := by
    rw [map_snd_quantifiers]
    exact f.binders_renamed_nodup
  rw [← holds_prenexForm M hf ρ]
  exact holds_skolemize (matrix_renamed hf).quantifierFree hnodup f.functions_matrix_subset_taken M ρ

/-- Only the free variables of the formula are tied to a given assignment: the Skolem form has no
others but universal ones. -/
theorem forall_agreesOutside_iff (hf : f.wellFormed) (ρ : Assignment D) :
    (∀ ρ' : Assignment D, ρ'.AgreesOutside f.renamedForm.1.quantifiers.universals ρ →
        f.plainForms.skolem.holds M ρ') ↔
      ∀ ρ' : Assignment D, (∀ x ∈ f.freeVars, ρ' x = ρ x) → f.plainForms.skolem.holds M ρ' := by
  constructor
  · intro h ρ' hρ'
    let mixed : Assignment D := fun x =>
      if x ∈ f.renamedForm.1.quantifiers.universals then ρ' x else ρ x
    have hmixed : f.plainForms.skolem.holds M mixed := h mixed fun x hx => if_neg hx
    refine (holds_congr_assignment _ fun x hx => ?_).mp hmixed
    by_cases hall : x ∈ f.renamedForm.1.quantifiers.universals
    · exact if_pos hall
    · have hfree := (mem_freeVars_skolem hf hx).resolve_right hall
      exact (if_neg hall).trans (hρ' x hfree).symm
  · intro h ρ' hρ'
    refine h ρ' fun x hx => hρ' x fun hall => ?_
    exact f.binders_renamed_fresh x (f.universals_subset_binders hall)
      (f.freeVars_subset_symbols hx)

theorem holds_clauses (hf : f.wellFormed) (ρ : Assignment D) :
    f.holds M ρ ↔ ∃ M', M'.AgreesOutside f.plainForms.skolemSymbols M ∧
      ∀ ρ' : Assignment D, (∀ x ∈ f.freeVars, ρ' x = ρ x) →
        ∀ c ∈ f.plainForms.clauses, Clause.holds M' ρ' c := by
  rw [holds_skolemForm M hf]
  refine exists_congr fun M' => and_congr_right fun _ => ?_
  rw [forall_agreesOutside_iff M' hf]
  exact forall₂_congr fun ρ' _ => holds_groups M' ρ' (skolem_plainForms hf)

theorem satisfiable_clauses (hf : f.wellFormed) (hclosed : f.freeVars = []) :
    f.Satisfiable.{u} ↔ Clause.Satisfiable.{u} f.plainForms.clauses := by
  constructor
  · rintro ⟨D, hD, M, ρ, h⟩
    obtain ⟨M', -, hM'⟩ := (holds_clauses M hf ρ).mp h
    exact ⟨D, hD, M', fun ρ' => hM' ρ' (by simp [hclosed])⟩
  · rintro ⟨D, hD, M, h⟩
    exact ⟨D, hD, M, fun _ => Classical.arbitrary D, (holds_clauses M hf _).mpr
      ⟨M, Interpretation.agreesOutside_refl _ M, fun ρ' _ => h ρ'⟩⟩

/-- On every well-formed formula the stages run through, and the clauses they lead to mean what the
formula means, up to the Skolem symbols, none of which occurs in it. -/
theorem clausification_keeps_meaning (f : Formula) (hf : f.wellFormed) :
    ∃ F names, f.forms.run.run (Names.ofFormula f) = (.ok F, names) ∧
      (∀ g ∈ F.skolemSymbols, g ∉ f.symbols) ∧
      (∀ (D : Type u) [Nonempty D] (M : Interpretation D) (ρ : Assignment D),
        f.holds M ρ ↔ ∃ M', M'.AgreesOutside F.skolemSymbols M ∧
          ∀ ρ' : Assignment D, (∀ x ∈ f.freeVars, ρ' x = ρ x) →
            ∀ c ∈ F.clauses, Clause.holds M' ρ' c) ∧
      (f.freeVars = [] → (f.Satisfiable.{u} ↔ Clause.Satisfiable.{u} F.clauses)) :=
  ⟨f.plainForms, f.skolemForm.2, forms_eq hf, f.skolemSymbols_fresh,
    fun _ _ M ρ => holds_clauses M hf ρ, satisfiable_clauses hf⟩

theorem clausification_keeps_meaning_of_nested_binders :
    let f : Formula :=
      .all "x" (.iff (.ex "x" (.atom ⟨"P", [.var "x"]⟩))
        (.ex "y" (.atom ⟨"R", [.var "x", .var "y"]⟩)))
    f.wellFormed ∧ ∃ F names, f.forms.run.run (Names.ofFormula f) = (.ok F, names) ∧
      (f.Satisfiable.{0} ↔ Clause.Satisfiable.{0} F.clauses) := by
  intro f
  have hf : f.wellFormed := rfl
  obtain ⟨F, names, hrun, -, -, hclosed⟩ := clausification_keeps_meaning.{0} f hf
  exact ⟨hf, F, names, hrun, hclosed rfl⟩

end Formula

end Clausification
