import Clausification.Proofs.Derivation.Record
import Clausification.Proofs.Derivation.Variants
import Clausification.Proofs.Form.Plain

/-!
# Starting again from a step

What stands in a step in front of the Skolem form can be converted again. The first two forms have the
names of the input and are left alone by the stages that have been passed, so that everything behind
them comes out the same; from the next two on the binders are renamed once more, and the clauses come
out the same up to the names drawn.
-/

namespace Clausification

namespace Formula
variable {f g : Formula}

/-- Two formulas with the same names and the same negation normal form have the same forms from there
on. -/
theorem plainForms_congr (hsymbols : ∀ x, x ∈ g.symbols ↔ x ∈ f.symbols)
    (hnormal : g.plainForms.negationNormal = f.plainForms.negationNormal) :
    g.plainForms = { f.plainForms with implicationFree := g.plainForms.implicationFree } := by
  have hdrawn : g.renamedForm =
      f.plainForms.negationNormal.renamedWith [] (Names.ofFormula g) :=
    congrArg (fun h => renamedWith [] h (Names.ofFormula g)) hnormal
  have hnames : (Names.ofFormula g).Same (Names.ofFormula f) := ⟨hsymbols, rfl, rfl⟩
  obtain ⟨hrenamed, hnames⟩ := renamedWith_congr hnames f.plainForms.negationNormal []
  rw [← hdrawn] at hrenamed hnames
  have hform : g.renamedForm.1 = f.renamedForm.1 := hrenamed
  have hentries : g.skolemEntries = f.skolemEntries := by
    rw [skolemEntries, skolemEntries, hform]
    exact Prefix.skolemEntries_congr hnames _ _
  have hskolem : g.plainForms.skolem = f.plainForms.skolem := by
    rw [skolem_eq_replace, skolem_eq_replace, hform, hentries]
  have hskolemSymbols : g.plainForms.skolemSymbols = f.plainForms.skolemSymbols := by
    rw [skolemSymbols_eq_reverse, skolemSymbols_eq_reverse, hentries]
  calc g.plainForms
      = { implicationFree := g.plainForms.implicationFree
          negationNormal := g.plainForms.negationNormal
          renamed := g.renamedForm.1
          prenex := Prenex.formula ⟨g.renamedForm.1.quantifiers, g.renamedForm.1.matrix⟩
          skolem := g.plainForms.skolem
          skolemSymbols := g.plainForms.skolemSymbols
          conjunctive := g.plainForms.skolem.distributed .and
          clauses := g.plainForms.skolem.groups .and } := rfl
    _ = _ := by
      rw [hnormal, hform, hskolem, hskolemSymbols]
      rfl

theorem plainForms_implicationFree (hf : f.wellFormed) :
    f.plainForms.implicationFree.plainForms = f.plainForms := by
  have hfree : f.plainForms.implicationFree.plainForms.implicationFree =
      f.plainForms.implicationFree :=
    (implicationFree_plainForms hf).withoutImplications_eq
  have hforms : f.plainForms.implicationFree.plainForms = _ :=
    plainForms_congr (f := f) (fun _ => mem_symbols_withoutImplications)
      (congrArg (signed false) hfree)
  rw [hforms, hfree]

theorem plainForms_negationNormal (hf : f.wellFormed) :
    f.plainForms.negationNormal.plainForms =
      { f.plainForms with implicationFree := f.plainForms.negationNormal } := by
  have hnormal := negationNormal_plainForms hf
  have hfree : f.plainForms.negationNormal.plainForms.implicationFree =
      f.plainForms.negationNormal :=
    hnormal.implicationFree.withoutImplications_eq
  have hagain : f.plainForms.negationNormal.plainForms.negationNormal =
      f.plainForms.negationNormal :=
    (congrArg (signed false) hfree).trans hnormal.signed_eq
  rw [plainForms_congr (fun _ => f.mem_symbols_negationNormal) hagain, hfree]

/-- From a formula with the prefix and the matrix of the renamed form the clauses come out with other
names drawn. -/
theorem exists_variants_of_prefix (hf : f.wellFormed) (hg : g.NegationNormal) (hgwf : g.wellFormed)
    (hquantifiers : g.quantifiers = f.renamedForm.1.quantifiers)
    (hmatrix : g.matrix = f.renamedForm.1.matrix)
    (hfree : ∀ x, x ∈ g.freeVars ↔ x ∈ f.freeVars) (hfunctions : f.functions ⊆ g.symbols) :
    ∃ r, f.plainForms.Variants f g.plainForms r := by
  have hbinders : g.binders = f.renamedForm.1.binders := by
    rw [← map_snd_quantifiers, ← map_snd_quantifiers, hquantifiers]
  have hatoms : g.functions ⊆ f.functions := by
    have hsubset := f.functions_renamed_subset
    rwa [functions, ← atoms_matrix, show f.plainForms.renamed.matrix = g.matrix from hmatrix.symm,
      atoms_matrix] at hsubset
  have hrenamed : g.renamedForm.1 = (g.renamedWith [] (Names.ofFormula g)).1 := by
    rw [renamedForm, hg.implicationFree.withoutImplications_eq, hg.signed_eq]
  apply exists_variants hf _ (fun x hx => g.freeVars_subset_symbols ((hfree x).mpr hx)) hfunctions
  · intro r hkeeps hdrawn
    rw [← hbinders, hrenamed] at hdrawn
    have hformula : r.formula g = (g.renamedWith [] (Names.ofFormula g)).1 :=
      Relabeling.formula_eq_renamedWith hgwf hkeeps.predicate
        (fun s hs => hkeeps.function s (hatoms hs))
        (fun x hx => congrArg Term.var (hkeeps.var x ((hfree x).mp hx)).symm) hdrawn
    rw [hrenamed, ← hformula, r.quantifiers_formula, r.matrix_formula, hquantifiers, hmatrix]
    exact ⟨rfl, rfl⟩
  · rw [hrenamed, length_binders_renamedWith, hbinders]

theorem exists_variants_renamed (hf : f.IsPlain) :
    ∃ r, f.plainForms.Variants f f.plainForms.renamed.plainForms r :=
  exists_variants_of_prefix hf.wellFormed (renamed_plainForms hf.wellFormed)
    (wellFormed_renamed hf.wellFormed) rfl rfl (fun _ => f.mem_freeVars_renamed)
    (by simp [hf.functions_eq_nil])

theorem exists_variants_prenex (hf : f.IsPlain) :
    ∃ r, f.plainForms.Variants f f.plainForms.prenex.plainForms r := by
  have hmatrix := matrix_renamed hf.wellFormed
  refine exists_variants_of_prefix hf.wellFormed
    (Prenex.negationNormal_formula _ hmatrix.negationNormal) hf.prenex.wellFormed ?_ ?_
    (fun _ => f.mem_freeVars_prenex) (by simp [hf.functions_eq_nil])
  · rw [show f.plainForms.prenex.quantifiers = _ from Prenex.quantifiers_formula _ _,
      show f.renamedForm.1.matrix.quantifiers = [] from hmatrix.quantifierFree.quantifiers_eq_nil,
      List.append_nil]
  · exact (Prenex.matrix_formula _ _).trans hmatrix.quantifierFree.matrix_eq

end Formula

/-- The keys of the steps behind the implication-free form. -/
def laterKeys : List String :=
  ["nnf", "renamed", "prenex", "skolem", "cnf", "clauses", "horn", "horn_summary", "dnf"]

namespace Derivation.Records
variable {n : Notation} {f g : Formula} {d d' : Derivation}

theorem step?_stage (h : d.Records n f) (stage : Stage) :
    d.step? stage.key = some (f.stageStep n stage) := by
  rw [step?, h.steps]
  cases stage <;> rfl

theorem step?_of_mem_laterKeys (h : d.Records n f) {key : String} (hkey : key ∈ laterKeys) :
    d.step? key = ((f.steps n f.plainForms.clauses).drop 2).find? (·.key == key) := by
  have hne : ∀ key ∈ laterKeys, "original" ≠ key ∧ "no_implications" ≠ key := by decide
  obtain ⟨horiginal, hfree⟩ := hne key hkey
  have hsplit : f.steps n f.plainForms.clauses =
      { key := "original", label := "Original formula", text := f.writing n } ::
        f.stageStep n .implicationFree :: (f.steps n f.plainForms.clauses).drop 2 := rfl
  rw [step?, h.steps, hsplit, List.find?_cons_of_neg (by simpa using horiginal),
    List.find?_cons_of_neg (by simpa [Formula.stageStep, Stage.key] using hfree)]
  rfl

theorem exists_step (hf : f.wellFormed) (h : d.Records n f) {key : String} (hkey : key ∈ laterKeys) :
    ∃ step, d.step? key = some step := by
  have hkeys : ((f.steps n f.plainForms.clauses).drop 2).map (·.key) = laterKeys := by
    have hempty : ¬ f.plainForms.clauses.isEmpty := by simpa using Formula.clauses_ne_nil hf
    rw [Formula.steps, Clause.steps, if_neg hempty]
    rfl
  rw [← hkeys] at hkey
  obtain ⟨step, hstep, hstepkey⟩ := List.mem_map.mp hkey
  rw [h.step?_of_mem_laterKeys (hkeys ▸ hkey), ← Option.isSome_iff_exists, List.find?_isSome]
  exact ⟨step, hstep, by simp [hstepkey]⟩

/-- Records of formulas with the same forms from the negation normal form on. -/
theorem step?_eq (h : d.Records n f) (h' : d'.Records n g)
    (hforms : g.plainForms = { f.plainForms with implicationFree := g.plainForms.implicationFree })
    {key : String} (hkey : key ∈ laterKeys) : d'.step? key = d.step? key := by
  have hstage (stage : Stage) (hne : stage ≠ .implicationFree) :
      g.stageStep n stage = f.stageStep n stage := by
    rw [Formula.stageStep, Formula.stageStep, hforms]
    cases stage with
    | implicationFree => exact absurd rfl hne
    | _ => rfl
  have hclauses : g.plainForms.clauses = f.plainForms.clauses := by rw [hforms]
  have hskolem : g.plainForms.skolem = f.plainForms.skolem := by rw [hforms]
  have hlater : (g.steps n g.plainForms.clauses).drop 2 =
      (f.steps n f.plainForms.clauses).drop 2 := by
    rw [hclauses]
    simp only [Formula.steps, Formula.stageSteps, Stage.all, List.map_cons, hskolem,
      hstage .negationNormal (by decide), hstage .renamed (by decide), hstage .prenex (by decide),
      hstage .skolem (by decide), hstage .conjunctive (by decide)]
    rfl
  rw [h.step?_of_mem_laterKeys hkey, h'.step?_of_mem_laterKeys hkey, hlater]

end Derivation.Records

namespace Request

/-- A conversion can be started again from each step in front of the Skolem form: from the first two
everything behind them is the same again, and from the other two the clauses are the same up to
variables that are not free and Skolem symbols. -/
theorem conversion_restarts (s s' : Settings) (strict strict' check check' : Option Bool)
    (threshold threshold' : Nat) (text : String) (f : Formula)
    (h : Formula.parse (strict.getD s.strict) text = .ok f) :
    ∃ d log F names,
      run { text, markup := some "text", strict, check } s ({ · with threshold }) = .ok (d, log) ∧
      f.forms.run.run (Names.ofFormula f) = (.ok F, names) ∧
      Clause.entries .text 1 F.clauses = .ok d.clauses ∧
      ∀ stage ∈ [Stage.implicationFree, .negationNormal, .renamed, .prenex],
        ∃ step d' log' g G names', d.step? stage.key = some step ∧
          run { text := step.text, markup := some "text", strict := strict', check := check' } s'
            ({ · with threshold := threshold' }) = .ok (d', log') ∧
          Formula.parse (strict'.getD s'.strict) step.text = .ok g ∧
          g.forms.run.run (Names.ofFormula g) = (.ok G, names') ∧
          Clause.entries .text 1 G.clauses = .ok d'.clauses ∧
          (stage ∈ [Stage.implicationFree, .negationNormal] →
            (∀ key ∈ laterKeys, ∃ later, d.step? key = some later ∧ d'.step? key = some later) ∧
            d'.clauses = d.clauses ∧ d'.allHorn = d.allHorn ∧ d'.tptp = d.tptp) ∧
          (stage ∈ [Stage.renamed, .prenex] → ∃ r, F.Variants f G r) := by
  have hf := Formula.isPlain_of_parse h
  have hwf := hf.wellFormed
  obtain ⟨d, log, hrun, hd⟩ := run_of_parse s .text strict check threshold h
  refine ⟨d, log, f.plainForms, f.skolemForm.2, hrun, Formula.forms_eq hwf, hd.clauses, ?_⟩
  intro stage hstage
  have hplain : (f.plainForms.form stage).IsPlain := by
    cases stage with
    | implicationFree => exact hf.withoutImplications
    | negationNormal => exact hf.withoutImplications.signed false
    | renamed => exact hf.renamed
    | prenex => exact hf.prenex
    | skolem | conjunctive => simp at hstage
  have hparse := Formula.parse_writing hplain (strict'.getD s'.strict)
  obtain ⟨d', log', hrun', hd'⟩ := run_of_parse s' .text strict' check' threshold' hparse
  refine ⟨f.stageStep .text stage, d', log', _, _, _, hd.step?_stage stage, hrun', hparse,
    Formula.forms_eq hplain.wellFormed, hd'.clauses, ?_, ?_⟩
  · intro hearly
    have hforms : (f.plainForms.form stage).plainForms = { f.plainForms with
        implicationFree := (f.plainForms.form stage).plainForms.implicationFree } := by
      simp only [List.mem_cons, List.not_mem_nil, or_false] at hearly
      rcases hearly with rfl | rfl
      · simp only [Forms.form, Formula.plainForms_implicationFree hwf]
      · simp only [Forms.form, Formula.plainForms_negationNormal hwf]
    have hclauses : (f.plainForms.form stage).plainForms.clauses = f.plainForms.clauses := by
      rw [hforms]
    refine ⟨?_, ?_, ?_, ?_⟩
    · intro key hkey
      obtain ⟨later, hlater⟩ := hd.exists_step hwf hkey
      exact ⟨later, hlater, (hd.step?_eq hd' hforms hkey).trans hlater⟩
    · have hentries := hd'.clauses
      rw [hclauses, hd.clauses] at hentries
      exact (Except.ok.inj hentries).symm
    · rw [hd'.allHorn, hd.allHorn, hclauses]
    · rw [hd'.tptp, hd.tptp, hclauses]
  · intro hlate
    simp only [List.mem_cons, List.not_mem_nil, or_false] at hlate
    rcases hlate with rfl | rfl
    · exact Formula.exists_variants_renamed hf
    · exact Formula.exists_variants_prenex hf

theorem conversion_restarts_of_equivalence :
    let text := "∃x. P(x) ↔ ∀x. Q(x, z)"
    let f : Formula := .iff (.ex "x" (.atom ⟨"P", [.var "x"]⟩))
      (.all "x" (.atom ⟨"Q", [.var "x", .var "z"]⟩))
    Formula.parse false text = .ok f ∧
      ∃ d log step d' log', run { text, markup := some "text" } {} ({ · with threshold := 30 }) =
          .ok (d, log) ∧
        d.step? "no_implications" = some step ∧
        run { text := step.text, markup := some "text" } {} ({ · with threshold := 30 }) =
          .ok (d', log') ∧
        d'.clauses = d.clauses := by
  intro text f
  have hf : f.IsPlain := by decide
  have hwriting : f.writing .text = text := by rfl
  have hparse : Formula.parse false text = .ok f := hwriting ▸ Formula.parse_writing hf false
  obtain ⟨d, log, F, names, hrun, -, -, hstages⟩ :=
    conversion_restarts {} {} none none none none 30 30 text f hparse
  obtain ⟨step, d', log', g, G, names', hstep, hrun', -, -, -, hearly, -⟩ :=
    hstages .implicationFree (by decide)
  exact ⟨hparse, d, log, step, d', log', hrun, hstep, hrun', (hearly (by decide)).2.1⟩

end Request

end Clausification
