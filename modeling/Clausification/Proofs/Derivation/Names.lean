import Clausification.Proofs.Derivation.Checks
import Clausification.Proofs.Form.SkolemSymbols
import Clausification.Proofs.Reader.RoundTrip
import Clausification.Proofs.Reader.Names

/-!
# The names of a derivation

Renamed variables and Skolem symbols are drawn from one source, which holds all names of the input
from the beginning. So none of them meets another name anywhere in the derivation, and a Skolem
symbol keeps its arguments: substitution puts its term in whole, and distribution copies atoms whole.
-/

namespace Clausification

/-- The names that the forms of a formula have beside those of the formula itself, for the Skolem
symbols listed by some entries. -/
structure Forms.NamesApart (F : Forms) (f disjunctive : Formula) (es : List SkolemEntry) :
    Prop where
  renamed_nodup : F.renamed.binders.Nodup
  renamed_fresh : ∀ x ∈ F.renamed.binders, x ∉ f.symbols
  prenex_nodup : F.prenex.binders.Nodup
  prenex_fresh : ∀ x ∈ F.prenex.binders, x ∉ f.symbols
  /-- There is one entry for each existential binder of the prefix. -/
  vars_eq : es.map (·.var) = F.prenex.splitPrefix.quantifiers.existentials
  skolem_eq : F.skolem = F.prenex.splitPrefix.matrix.replace (SkolemEntry.substitution es)
  symbols_nodup : (es.map (·.symbol)).Nodup
  mem_symbols : ∀ g, g ∈ F.skolemSymbols ↔ g ∈ es.map (·.symbol)
  symbols_fresh : ∀ g ∈ F.skolemSymbols, g ∉ f.symbols ∧ g ∉ F.renamed.binders
  functions_subset : F.skolem.functions ⊆ F.skolemSymbols
  /-- The arguments of a symbol are the universal variables before its binder. -/
  args_eq : ∀ e ∈ es, ∃ ps rs : Prefix,
    F.prenex.splitPrefix.quantifiers = ps ++ (.ex, e.var) :: rs ∧ e.args = ps.universals
  /-- Wherever a symbol occurs, it has these arguments. -/
  applications_eq : ∀ p ∈ F.skolem.applications ++ F.conjunctive.applications ++
      disjunctive.applications ++ F.clauses.flatMap Clause.applications,
    ∃ e ∈ es, p = (e.symbol, e.args.map .var)
  clause_vars : ∀ c ∈ F.clauses, ∀ l ∈ c, ∀ y ∈ l.atom.vars,
    y ∈ f.freeVars ∨ y ∈ F.prenex.splitPrefix.quantifiers.universals

namespace Formula

/-- The Skolem symbols of a formula, one for each existential binder of its renamed form. -/
def skolemEntries (f : Formula) : List SkolemEntry :=
  Prefix.skolemEntries f.renamedForm.1.quantifiers [] f.renamedForm.2

variable {f : Formula}

theorem splitPrefix_prenex (hf : f.wellFormed) : f.plainForms.prenex.splitPrefix =
    ⟨f.renamedForm.1.quantifiers, f.renamedForm.1.matrix⟩ :=
  Prenex.splitPrefix_formula _ (matrix_renamed hf).quantifierFree.isQuant_eq_false

theorem binders_prenex (hf : f.wellFormed) :
    f.plainForms.prenex.binders = f.plainForms.renamed.binders := by
  have hmatrix : f.renamedForm.1.matrix.binders = [] :=
    (matrix_renamed hf).quantifierFree.binders_eq_nil
  have hprenex := Prenex.binders_formula f.renamedForm.1.quantifiers f.renamedForm.1.matrix
  rwa [hmatrix, List.append_nil, map_snd_quantifiers] at hprenex

theorem skolem_eq_replace (f : Formula) : f.plainForms.skolem =
    f.renamedForm.1.matrix.replace (SkolemEntry.substitution f.skolemEntries) := by
  have hterms := Prefix.skolemTerms_fst_eq f.renamedForm.1.quantifiers [] [] f.renamedForm.2
  rw [List.append_nil] at hterms
  exact congrArg (f.renamedForm.1.matrix.replace ·) hterms

theorem mem_skolemSymbols {g : String} :
    g ∈ f.plainForms.skolemSymbols ↔ g ∈ f.skolemEntries.map (·.symbol) :=
  Prefix.mem_drawn_skolemTerms ..

theorem skolemSymbols_not_mem_binders (f : Formula) :
    ∀ g ∈ f.plainForms.skolemSymbols, g ∉ f.plainForms.renamed.binders := by
  intro g hg hbinder
  have htaken : f.renamedForm.2.taken = f.plainForms.renamed.binders.reverse ++ f.symbols :=
    taken_renamedWith _ [] _
  refine (Names.mem_drawn.mp hg).2 ?_
  rw [htaken]
  exact List.mem_append_left _ (List.mem_reverse.mpr hbinder)

theorem functions_matrix_renamed (hf : f.IsPlain) : f.plainForms.renamed.matrix.functions = [] := by
  have hsubset := f.functions_renamed_subset
  rw [hf.functions_eq_nil] at hsubset
  rw [functions, atoms_matrix]
  exact List.subset_nil.mp hsubset

theorem functions_skolem_subset (hf : f.IsPlain) :
    f.plainForms.skolem.functions ⊆ f.plainForms.skolemSymbols := by
  intro g hg
  refine (mem_functions_skolemize (matrix_renamed hf.wellFormed).quantifierFree hg).resolve_left ?_
  rw [functions_matrix_renamed hf]
  exact List.not_mem_nil

theorem mem_applications_skolem (hf : f.IsPlain) {p : String × List Term}
    (hp : p ∈ f.plainForms.skolem.applications) :
    ∃ e ∈ f.skolemEntries, p = (e.symbol, e.args.map .var) := by
  rw [skolem_eq_replace] at hp
  exact (matrix_renamed hf.wellFormed).quantifierFree.mem_applications_skolemize
    (functions_matrix_renamed hf) hp

/-- Behind the Skolem form symbols and their arguments stay together. -/
theorem applications_forms_subset (hf : f.wellFormed) :
    f.plainForms.skolem.applications ++ f.plainForms.conjunctive.applications ++
        (f.plainForms.skolem.distributed .or).applications ++
        f.plainForms.clauses.flatMap Clause.applications ⊆ f.plainForms.skolem.applications := by
  have hmatrix := skolem_plainForms hf
  refine List.append_subset.mpr ⟨List.append_subset.mpr ⟨List.append_subset.mpr
    ⟨List.Subset.refl _, ?_⟩, ?_⟩, ?_⟩
  · exact applications_subset_of_atoms_subset (atoms_distributed_subset (Or.inl rfl) hmatrix)
  · exact applications_subset_of_atoms_subset (atoms_distributed_subset (Or.inr rfl) hmatrix)
  · intro p hp
    obtain ⟨c, hc, hp⟩ := List.mem_flatMap.mp hp
    exact applications_subset_of_mem_groups hmatrix hc hp

theorem mem_vars_clauses (hf : f.wellFormed) {c : Clause} (hc : c ∈ f.plainForms.clauses)
    {l : Literal} (hl : l ∈ c) {y : String} (hy : y ∈ l.atom.vars) :
    y ∈ f.freeVars ∨ y ∈ f.renamedForm.1.quantifiers.universals := by
  have hmatrix := skolem_plainForms hf
  exact mem_freeVars_skolem hf
    (hmatrix.quantifierFree.mem_freeVars.mpr ⟨l.atom, atom_mem_of_mem_groups hmatrix hc hl, hy⟩)

theorem namesApart_plainForms (hf : f.IsPlain) :
    f.plainForms.NamesApart f (f.plainForms.skolem.distributed .or) f.skolemEntries := by
  have hwf := hf.wellFormed
  have hsplit := splitPrefix_prenex hwf
  have hbinders := binders_prenex hwf
  refine
    { renamed_nodup := f.binders_renamed_nodup
      renamed_fresh := f.binders_renamed_fresh
      prenex_nodup := hbinders ▸ f.binders_renamed_nodup
      prenex_fresh := hbinders ▸ f.binders_renamed_fresh
      vars_eq := ?_
      skolem_eq := ?_
      symbols_nodup := (Prefix.symbols_skolemEntries ..).1
      mem_symbols := fun _ => mem_skolemSymbols
      symbols_fresh := fun g hg => ⟨f.skolemSymbols_fresh g hg, f.skolemSymbols_not_mem_binders g hg⟩
      functions_subset := functions_skolem_subset hf
      args_eq := ?_
      applications_eq := fun _ hp => mem_applications_skolem hf (applications_forms_subset hwf hp)
      clause_vars := ?_ }
  · rw [hsplit]
    exact Prefix.map_var_skolemEntries ..
  · rw [hsplit]
    exact f.skolem_eq_replace
  · rw [hsplit]
    intro e he
    obtain ⟨ps, rs, hqs, hargs⟩ := Prefix.exists_split_of_mem_skolemEntries he
    exact ⟨ps, rs, hqs, hargs⟩
  · rw [hsplit]
    exact fun _ hc _ hl _ hy => mem_vars_clauses hwf hc hl hy

/-- All names that are generated for a text differ from each other and from the names in the text,
and each Skolem symbol has the same arguments wherever it occurs. -/
theorem generated_names_stay_apart (strict : Bool) (text : String) (f : Formula)
    (h : Formula.parse strict text = .ok f) :
    ∃ F names disjunctive es, f.forms.run.run (Names.ofFormula f) = (.ok F, names) ∧
      F.skolem.disjunctive = .ok disjunctive ∧ F.NamesApart f disjunctive es := by
  have hf := isPlain_of_parse h
  exact ⟨f.plainForms, f.skolemForm.2, f.plainForms.skolem.distributed .or, f.skolemEntries,
    forms_eq hf.wellFormed, disjunctive_eq (skolem_plainForms hf.wellFormed),
    namesApart_plainForms hf⟩

theorem generated_names_stay_apart_of_generated_looks :
    let text := "∀x. ∃y. f1(x, y, x_1)"
    let f : Formula := .all "x" (.ex "y" (.atom ⟨"f1", [.var "x", .var "y", .var "x_1"]⟩))
    Formula.parse false text = .ok f ∧
      ∃ F names disjunctive es, f.forms.run.run (Names.ofFormula f) = (.ok F, names) ∧
        F.skolem.disjunctive = .ok disjunctive ∧ F.NamesApart f disjunctive es := by
  intro text f
  have hf : f.IsPlain := by decide
  have hwriting : f.writing .text = text := by rfl
  have hparse : Formula.parse false text = .ok f := hwriting ▸ Formula.parse_writing hf false
  exact ⟨hparse, generated_names_stay_apart false text f hparse⟩

end Formula

end Clausification
