import Clausification.Proofs.Derivation.Forms
import Clausification.Proofs.Form.Grafting
import Clausification.Proofs.Formula.Plain

/-!
# Every stage passes its check

The forms of a plain formula: each is as its check wants it, and each can be written. Only the check
of the Skolem form looks back at the input, and there it helps that a plain formula has no function
symbols of its own.
-/

namespace Clausification

/-- The form that a stage leads to. -/
def Forms.form (F : Forms) : Stage → Formula
  | .implicationFree => F.implicationFree
  | .negationNormal => F.negationNormal
  | .renamed => F.renamed
  | .prenex => F.prenex
  | .skolem => F.skolem
  | .conjunctive => F.conjunctive

namespace Formula

theorem wellFormed_distributed {outer : Connective} (houter : outer.IsJunction) {f : Formula}
    (hf : f.Matrix) (hwf : f.wellFormed) : (f.distributed outer).wellFormed := by
  have hmatrix := (normalForm_distributed houter hf).matrix houter
  rw [hmatrix.quantifierFree.wellFormed_iff]
  exact fun a ha => atom_wellFormed_of_wellFormed hwf a (atoms_distributed_subset houter hf ha)

variable {f : Formula}

theorem wellFormed_form (hf : f.wellFormed) (stage : Stage) :
    (f.plainForms.form stage).wellFormed := by
  cases stage with
  | implicationFree => exact wellFormed_implicationFree hf
  | negationNormal => exact wellFormed_negationNormal hf
  | renamed => exact wellFormed_renamed hf
  | prenex => exact (Prenex.wellFormed_formula _ _).trans (wellFormed_matrix_renamed hf)
  | skolem => exact wellFormed_skolem hf
  | conjunctive =>
    exact wellFormed_distributed (Or.inl rfl) (skolem_plainForms hf) (wellFormed_skolem hf)

/-- The form that a stage starts from. -/
def formBefore (f : Formula) : Stage → Formula
  | .implicationFree => f
  | .negationNormal => f.plainForms.implicationFree
  | .renamed => f.plainForms.negationNormal
  | .prenex => f.plainForms.renamed
  | .skolem => f.plainForms.prenex
  | .conjunctive => f.plainForms.skolem

/-- The names before a stage. -/
def namesBefore (f : Formula) : Stage → Names
  | .implicationFree | .negationNormal | .renamed => Names.ofFormula f
  | .prenex | .skolem => f.renamedForm.2
  | .conjunctive => f.skolemForm.2

/-- The names behind a stage. -/
def namesBehind (f : Formula) : Stage → Names
  | .implicationFree | .negationNormal => Names.ofFormula f
  | .renamed | .prenex => f.renamedForm.2
  | .skolem | .conjunctive => f.skolemForm.2

theorem run_pass (hf : f.wellFormed) (stage : Stage) :
    (({} : Passes).run stage (f.formBefore stage)).run.run (f.namesBefore stage) =
      (.ok (f.plainForms.form stage), f.namesBehind stage) := by
  cases stage with
  | implicationFree => exact Naming.run_ofExcept (stage_implicationFree hf) _
  | negationNormal => exact Naming.run_ofExcept (stage_negationNormal hf) _
  | renamed => exact stage_renamed hf
  | prenex => exact Naming.run_ofExcept (stage_prenex hf) _
  | skolem => exact stage_skolem hf
  | conjunctive => exact Naming.run_ofExcept (stage_conjunctive hf) _

theorem clauses_ne_nil (hf : f.wellFormed) : f.plainForms.clauses ≠ [] :=
  groups_ne_nil (skolem_plainForms hf)

theorem ne_nil_of_mem_clauses {c : Clause} (hc : c ∈ f.plainForms.clauses) : c ≠ [] :=
  ne_nil_of_mem_groups hc

theorem atom_wellFormed_of_mem_clauses (hf : f.wellFormed) {c : Clause}
    (hc : c ∈ f.plainForms.clauses) : ∀ l ∈ c, l.atom.wellFormed := fun l hl =>
  atom_wellFormed_of_wellFormed (wellFormed_skolem hf) l.atom
    (atom_mem_of_mem_groups (skolem_plainForms hf) hc hl)

/-- All function symbols of the Skolem form are Skolem symbols. -/
theorem functions_skolem_fresh (hf : f.wellFormed) (hfunctions : f.functions = []) :
    ∀ g ∈ f.plainForms.skolem.functions, g ∉ f.symbols := by
  intro g hg
  refine f.skolemSymbols_fresh g
    ((mem_functions_skolemize (matrix_renamed hf).quantifierFree hg).resolve_left fun hmatrix => ?_)
  rw [functions, atoms_matrix] at hmatrix
  have hinput := f.functions_renamed_subset hmatrix
  rw [hfunctions] at hinput
  exact absurd hinput List.not_mem_nil

theorem check_form_of_functions_eq_nil (hf : f.wellFormed) (hfunctions : f.functions = [])
    (stage : Stage) : ({} : Checks).run f.symbols stage (f.plainForms.form stage) = [] := by
  cases stage with
  | implicationFree => exact Invariant.implicationFree_eq_nil _ (implicationFree_plainForms hf)
  | negationNormal => exact Invariant.negationNormal_eq_nil _ (negationNormal_plainForms hf)
  | renamed => exact Invariant.distinctBinders_eq_nil _ f.binders_renamed_nodup
  | prenex => exact Invariant.prenex_eq_nil _ _ (matrix_renamed hf).quantifierFree
  | skolem =>
    exact Invariant.skolemized_eq_nil _ (skolem_plainForms hf).quantifierFree
      (functions_skolem_fresh hf hfunctions)
  | conjunctive =>
    exact (Invariant.conjunctive_eq_nil_iff _).mpr
      (neverOver_distributed (Or.inl rfl) (skolem_plainForms hf).boolean)

theorem check_form (hf : f.IsPlain) (stage : Stage) :
    ({} : Checks).run f.symbols stage (f.plainForms.form stage) = [] :=
  check_form_of_functions_eq_nil hf.wellFormed hf.functions_eq_nil stage

theorem check_disjunctive (hf : f.wellFormed) :
    ({} : Checks).disjunctive (f.plainForms.skolem.distributed .or) = [] :=
  (Invariant.disjunctive_eq_nil_iff _).mpr
    (neverOver_distributed (Or.inr rfl) (skolem_plainForms hf).boolean)

end Formula

end Clausification
