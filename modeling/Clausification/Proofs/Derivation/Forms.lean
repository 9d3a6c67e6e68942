import Clausification.Derivation.Passes
import Clausification.Proofs.Clause.Extraction
import Clausification.Proofs.Form.AlphaConversion
import Clausification.Proofs.Form.Skolem

/-!
# The forms of a formula

The stages in their order, on one source of names. On a well-formed formula none of them stops, and
each delivers the shape that the next one asks for.
-/

namespace Clausification

/-- What becomes of a formula on the way to its clauses. -/
structure Forms where
  implicationFree : Formula
  negationNormal : Formula
  renamed : Formula
  prenex : Formula
  skolem : Formula
  skolemSymbols : List String
  conjunctive : Formula
  clauses : List Clause
deriving DecidableEq, Inhabited

namespace Formula

/-- Run all stages. The Skolem symbols are the names drawn by the stage that puts them in. -/
def forms (f : Formula) : Naming Obstacle Forms := do
  let implicationFree ← .ofExcept f.implicationFree
  let negationNormal ← .ofExcept implicationFree.negationNormal
  let renamed ← negationNormal.rename
  let prenex ← .ofExcept renamed.prenex
  let before ← get
  let skolem ← prenex.skolemize
  let skolemSymbols := before.drawn (← get)
  let conjunctive ← .ofExcept skolem.conjunctive
  let clauses ← .ofExcept conjunctive.clauses
  return { implicationFree, negationNormal, renamed, prenex, skolem, skolemSymbols, conjunctive,
           clauses }

/-- The renamed form of a formula and the names behind it. -/
def renamedForm (f : Formula) : Formula × Names :=
  (f.withoutImplications.signed false).renamedWith [] (Names.ofFormula f)

/-- The Skolem terms of a formula and the names behind them. -/
def skolemForm (f : Formula) : Substitution × Names :=
  skolemTerms f.renamedForm.1.quantifiers [] [] f.renamedForm.2

/-- The forms of a formula, computed without the possibility to stop. -/
def plainForms (f : Formula) : Forms where
  implicationFree := f.withoutImplications
  negationNormal := f.withoutImplications.signed false
  renamed := f.renamedForm.1
  prenex := Prenex.formula ⟨f.renamedForm.1.quantifiers, f.renamedForm.1.matrix⟩
  skolem := f.renamedForm.1.matrix.replace f.skolemForm.1
  skolemSymbols := f.renamedForm.2.drawn f.skolemForm.2
  conjunctive := (f.renamedForm.1.matrix.replace f.skolemForm.1).distributed .and
  clauses := (f.renamedForm.1.matrix.replace f.skolemForm.1).groups .and

end Formula

theorem Naming.run_ofExcept {α : Type} {x : Except Obstacle α} {a : α} (h : x = .ok a)
    (names : Names) : (Naming.ofExcept x).run.run names = (.ok a, names) := by
  rw [h]
  rfl

theorem Naming.run_get (names : Names) :
    (get : Naming Obstacle Names).run.run names = (.ok names, names) := rfl

namespace Formula
variable {f : Formula}

theorem implicationFree_plainForms (hf : f.wellFormed) :
    f.plainForms.implicationFree.ImplicationFree :=
  implicationFree_withoutImplications hf

theorem negationNormal_plainForms (hf : f.wellFormed) :
    f.plainForms.negationNormal.NegationNormal :=
  negationNormal_signed (implicationFree_plainForms hf) false

theorem renamed_plainForms (hf : f.wellFormed) : f.plainForms.renamed.NegationNormal :=
  negationNormal_renamedWith (negationNormal_plainForms hf) [] _

theorem matrix_renamed (hf : f.wellFormed) : f.plainForms.renamed.matrix.Matrix :=
  (renamed_plainForms hf).matrix

theorem skolem_plainForms (hf : f.wellFormed) : f.plainForms.skolem.Matrix :=
  (matrix_renamed hf).replace _

theorem wellFormed_implicationFree (hf : f.wellFormed) :
    f.plainForms.implicationFree.wellFormed := by
  rw [(implicationFree_plainForms hf).wellFormed_iff]
  exact fun a ha => atom_wellFormed_of_wellFormed hf a (mem_atoms_withoutImplications.mp ha)

theorem wellFormed_negationNormal (hf : f.wellFormed) :
    f.plainForms.negationNormal.wellFormed := by
  have hatoms : f.plainForms.negationNormal.atoms = f.plainForms.implicationFree.atoms :=
    atoms_signed _ false
  rw [(negationNormal_plainForms hf).implicationFree.wellFormed_iff, hatoms]
  exact atom_wellFormed_of_wellFormed (wellFormed_implicationFree hf)

theorem wellFormed_renamed (hf : f.wellFormed) : f.plainForms.renamed.wellFormed :=
  wellFormed_renamedWith Substitution.isRenaming_nil (wellFormed_negationNormal hf)

theorem wellFormed_matrix_renamed (hf : f.wellFormed) :
    f.plainForms.renamed.matrix.wellFormed := by
  rw [(matrix_renamed hf).quantifierFree.wellFormed_iff, atoms_matrix]
  exact atom_wellFormed_of_wellFormed (wellFormed_renamed hf)

theorem wellFormed_skolem (hf : f.wellFormed) : f.plainForms.skolem.wellFormed :=
  wellFormed_skolemize (matrix_renamed hf).quantifierFree (wellFormed_matrix_renamed hf)

theorem stage_implicationFree (hf : f.wellFormed) :
    f.implicationFree = .ok f.plainForms.implicationFree :=
  implicationFree_eq hf

theorem stage_negationNormal (hf : f.wellFormed) :
    f.plainForms.implicationFree.negationNormal = .ok f.plainForms.negationNormal :=
  negationNormal_eq (implicationFree_plainForms hf)

theorem stage_renamed (hf : f.wellFormed) :
    f.plainForms.negationNormal.rename.run.run (Names.ofFormula f) =
      (.ok f.plainForms.renamed, f.renamedForm.2) :=
  rename_eq (wellFormed_negationNormal hf) _

theorem stage_prenex (hf : f.wellFormed) :
    f.plainForms.renamed.prenex = .ok f.plainForms.prenex :=
  prenex_eq (renamed_plainForms hf).implicationFree

theorem stage_skolem (hf : f.wellFormed) :
    f.plainForms.prenex.skolemize.run.run f.renamedForm.2 =
      (.ok f.plainForms.skolem, f.skolemForm.2) :=
  skolemize_eq (matrix_renamed hf).quantifierFree (wellFormed_matrix_renamed hf) _ _

theorem stage_conjunctive (hf : f.wellFormed) :
    f.plainForms.skolem.conjunctive = .ok f.plainForms.conjunctive :=
  conjunctive_eq (skolem_plainForms hf)

theorem stage_clauses (hf : f.wellFormed) :
    f.plainForms.conjunctive.clauses = .ok f.plainForms.clauses :=
  clauses_distributed (skolem_plainForms hf)

/-- No stage stops on a well-formed formula. -/
theorem forms_eq (hf : f.wellFormed) :
    f.forms.run.run (Names.ofFormula f) = (.ok f.plainForms, f.skolemForm.2) := by
  rw [forms, run_bind (Naming.run_ofExcept (stage_implicationFree hf) _),
    run_bind (Naming.run_ofExcept (stage_negationNormal hf) _),
    run_bind (stage_renamed hf), run_bind (Naming.run_ofExcept (stage_prenex hf) _),
    run_bind (Naming.run_get _), run_bind (stage_skolem hf),
    run_bind (Naming.run_get _),
    run_bind (Naming.run_ofExcept (stage_conjunctive hf) _),
    run_bind (Naming.run_ofExcept (stage_clauses hf) _)]
  rfl

theorem binders_renamed_nodup (f : Formula) : f.plainForms.renamed.binders.Nodup :=
  (binders_renamedWith _ [] _).1

theorem binders_renamed_fresh (f : Formula) :
    ∀ x ∈ f.plainForms.renamed.binders, x ∉ f.symbols :=
  (binders_renamedWith _ [] _).2

theorem mem_symbols_negationNormal (f : Formula) {x : String} :
    x ∈ f.plainForms.negationNormal.symbols ↔ x ∈ f.symbols := by
  have hsigned : f.plainForms.negationNormal.symbols = f.plainForms.implicationFree.symbols :=
    symbols_signed _ false
  rw [hsigned]
  exact mem_symbols_withoutImplications

theorem mem_freeVars_negationNormal (f : Formula) {x : String} :
    x ∈ f.plainForms.negationNormal.freeVars ↔ x ∈ f.freeVars := by
  have hsigned : f.plainForms.negationNormal.freeVars = f.plainForms.implicationFree.freeVars :=
    freeVars_signed _ false
  rw [hsigned]
  exact mem_freeVars_withoutImplications

theorem alphaEquivalent_renamed (f : Formula) :
    f.plainForms.negationNormal.AlphaEquivalent f.plainForms.renamed :=
  alphaEquivalent_renamedWith fun _ hx =>
    f.freeVars_subset_symbols (f.mem_freeVars_negationNormal.mp hx)

theorem mem_freeVars_renamed (f : Formula) {x : String} :
    x ∈ f.plainForms.renamed.freeVars ↔ x ∈ f.freeVars :=
  f.alphaEquivalent_renamed.mem_freeVars_iff.trans f.mem_freeVars_negationNormal

theorem mem_freeVars_prenex (f : Formula) {x : String} :
    x ∈ f.plainForms.prenex.freeVars ↔ x ∈ f.freeVars := by
  refine (Prenex.mem_freeVars_formula_matrix fun y hbound hfree => ?_).trans f.mem_freeVars_renamed
  exact f.binders_renamed_fresh y hbound (f.freeVars_subset_symbols (f.mem_freeVars_renamed.mp hfree))

theorem functions_negationNormal_subset (f : Formula) :
    f.plainForms.negationNormal.functions ⊆ f.functions := by
  intro g hg
  rw [functions, show f.plainForms.negationNormal.atoms = f.plainForms.implicationFree.atoms
    from atoms_signed _ false] at hg
  obtain ⟨a, ha, hg⟩ := List.mem_flatMap.mp hg
  exact List.mem_flatMap.mpr ⟨a, mem_atoms_withoutImplications.mp ha, hg⟩

theorem functions_renamed_subset (f : Formula) : f.plainForms.renamed.functions ⊆ f.functions := by
  rw [← Alike.functions_eq f.alphaEquivalent_renamed]
  exact f.functions_negationNormal_subset

/-- The names of a formula stay taken behind its renamed form. -/
theorem symbols_subset_renamedForm (f : Formula) : f.symbols ⊆ f.renamedForm.2.taken :=
  taken_subset_renamedWith _ [] (Names.ofFormula f)

theorem skolemSymbols_fresh (f : Formula) : ∀ g ∈ f.plainForms.skolemSymbols, g ∉ f.symbols :=
  fun _ hg hsymbol => (Names.mem_drawn.mp hg).2 (f.symbols_subset_renamedForm hsymbol)

theorem universals_subset_binders (f : Formula) :
    f.renamedForm.1.quantifiers.universals ⊆ f.plainForms.renamed.binders := by
  intro x hx
  have hmem := Prefix.mem_vars.mpr (Or.inl hx)
  rwa [map_snd_quantifiers] at hmem

theorem mem_freeVars_skolem (hf : f.wellFormed) {y : String}
    (hy : y ∈ f.plainForms.skolem.freeVars) :
    y ∈ f.freeVars ∨ y ∈ f.renamedForm.1.quantifiers.universals := by
  refine (mem_freeVars_skolemize (matrix_renamed hf).quantifierFree hy).imp_left fun hy => ?_
  obtain ⟨hmatrix, hbound⟩ := Prenex.mem_freeVars_formula.mp hy
  rw [map_snd_quantifiers] at hbound
  exact f.mem_freeVars_renamed.mp ((mem_freeVars_matrix hmatrix).resolve_right hbound)

end Formula

end Clausification
