import Clausification.Proofs.Clause.Reading
import Clausification.Proofs.Derivation.Export
import Clausification.Proofs.Derivation.Record

/-!
# Clauses in writing come out as they are

A list of clauses in writing is a formula that all stages leave alone, so a conversion takes it apart
into the same clauses. This goes for the clauses of every record too, as long as there are no Skolem
terms in them: these are written, but nothing that looks like them is read.
-/

namespace Clausification

namespace Formula
variable {f : Formula}

theorem Matrix.clauses_plainForms (hf : f.Matrix) : f.plainForms.clauses = f.groups .and := by
  have hnormal := hf.negationNormal
  have hfree := hf.quantifierFree
  have hrenamed : f.renamedForm.1 = f := by
    rw [renamedForm, hnormal.implicationFree.withoutImplications_eq, hnormal.signed_eq,
      hfree.renamedWith_nil]
  have hskolem : f.skolemForm.1 = [] := by
    rw [skolemForm, hrenamed, hfree.quantifiers_eq_nil]
    rfl
  calc f.plainForms.clauses
      = (f.renamedForm.1.matrix.replace f.skolemForm.1).groups .and := rfl
    _ = f.groups .and := by rw [hrenamed, hskolem, hfree.matrix_eq, replace_nil]

/-- In a clause without Skolem terms there are only names that can be read. -/
theorem isPlain_of_mem_clauses (hf : f.IsPlain) {c : Clause} (hc : c ∈ f.plainForms.clauses)
    (hfunctions : c.functions = []) : c.IsPlain := by
  intro l hl
  refine ⟨isName_of_mem_predicates hf hc (List.mem_map_of_mem hl), ?_⟩
  intro t ht
  have hwf : t.wellFormed := by
    have hatom : l.atom.wellFormed := atom_wellFormed_of_mem_clauses hf.wellFormed hc l hl
    rw [Atom.wellFormed, Term.allWellFormed_eq_all] at hatom
    exact List.all_eq_true.mp hatom t ht
  cases t with
  | var x =>
    have hx : x ∈ l.atom.vars := List.mem_flatMap.mpr ⟨_, ht, List.mem_singleton_self x⟩
    exact ⟨x, rfl, isName_of_mem_vars hf hc (List.mem_flatMap.mpr ⟨l, hl, hx⟩)⟩
  | app g ts =>
    have hg : g ∈ l.atom.functions := List.mem_flatMap.mpr ⟨_, ht, List.mem_cons_self⟩
    have hmem : g ∈ c.functions := List.mem_flatMap.mpr ⟨l, hl, hg⟩
    rw [hfunctions] at hmem
    cases hmem
  | stray p ts => cases hwf

end Formula

namespace Clause
variable {cs : List Clause}

theorem clauses_formulaOfAll (hcs : cs ≠ []) (hne : ∀ c ∈ cs, c ≠ []) :
    (formulaOfAll cs).plainForms.clauses = cs :=
  (matrix_formulaOfAll hcs hne).clauses_plainForms.trans (groups_formulaOfAll hcs hne)

end Clause

namespace Derivation.Records
variable {n : Notation} {f : Formula} {d : Derivation}

theorem step?_clauses (h : d.Records n f) : d.step? "clauses" =
    some { key := "clauses", label := "Clausal form (set of clauses)",
           text := Clause.writingAll n f.plainForms.clauses } := by
  rw [step?, h.steps]
  rfl

end Derivation.Records

namespace Request

theorem run_writingAll (s : Settings) (n m : Notation) (strict check : Option Bool)
    (threshold : Nat) {cs : List Clause} (hcs : cs ≠ []) (hne : ∀ c ∈ cs, c ≠ [])
    (hplain : ∀ c ∈ cs, c.IsPlain) :
    ∃ d log, run { text := Clause.writingAll n cs, markup := some m.name, strict, check } s
        ({ · with threshold }) = .ok (d, log) ∧
      d.ok = true ∧ Clause.entries m 1 cs = .ok d.clauses ∧
      d.allHorn = some (allHorn (cs.map (·.kind))) ∧ d.tptp = Tptp.lines "c" cs := by
  obtain ⟨d, log, hrun, hd⟩ := run_of_parse s m strict check threshold
    (Clause.parse_writingAll n hcs hne hplain (strict.getD s.strict))
  obtain ⟨hok, -, hentries, hhorn, htptp⟩ := hd
  rw [Clause.clauses_formulaOfAll hcs hne] at hentries hhorn htptp
  exact ⟨d, log, hrun, hok, hentries, hhorn, htptp⟩

/-- Whatever clauses are written, in either notation, come out of a conversion again, and so do the
clauses of a record without Skolem terms, together with what is said about them. -/
theorem conversion_reproduces_clauses (s s' : Settings) (n m : Notation)
    (strict strict' check check' : Option Bool) (threshold threshold' : Nat) :
    (∀ cs : List Clause, cs ≠ [] → (∀ c ∈ cs, c ≠ []) → (∀ c ∈ cs, c.IsPlain) →
      ∃ text d log f F names, Clause.renderAll n cs = .ok text ∧
        run { text, markup := some m.name, strict, check } s ({ · with threshold }) =
          .ok (d, log) ∧
        Formula.parse (strict.getD s.strict) text = .ok f ∧
        f.forms.run.run (Names.ofFormula f) = (.ok F, names) ∧
        d.ok = true ∧ F.clauses = cs ∧ Clause.entries m 1 cs = .ok d.clauses ∧
        d.allHorn = some (allHorn (cs.map (·.kind))) ∧ d.tptp = Tptp.lines "c" cs) ∧
    ∀ text f, Formula.parse (strict.getD s.strict) text = .ok f →
      ∃ d log F names,
        run { text, markup := some n.name, strict, check } s ({ · with threshold }) =
          .ok (d, log) ∧
        f.forms.run.run (Names.ofFormula f) = (.ok F, names) ∧
        Clause.entries n 1 F.clauses = .ok d.clauses ∧
        ((∀ c ∈ F.clauses, c.functions = []) →
          ∃ step d' log', d.step? "clauses" = some step ∧
            run { text := step.text, markup := some m.name, strict := strict', check := check' } s'
              ({ · with threshold := threshold' }) = .ok (d', log') ∧
            Clause.entries m 1 F.clauses = .ok d'.clauses ∧ (m = n → d'.clauses = d.clauses) ∧
            d'.allHorn = d.allHorn ∧ d'.tptp = d.tptp) := by
  constructor
  · intro cs hcs hne hplain
    have hparse := Clause.parse_writingAll n hcs hne hplain (strict.getD s.strict)
    have hwf := (Formula.isPlain_of_parse hparse).wellFormed
    have hrender : Clause.renderAll n cs = .ok (Clause.writingAll n cs) :=
      Clause.renderAll_eq n fun c hc l hl => (hplain c hc l hl).wellFormed
    obtain ⟨d, log, hrun, hok, hentries⟩ := run_writingAll s n m strict check threshold hcs hne hplain
    exact ⟨_, d, log, _, _, _, hrender, hrun, hparse, Formula.forms_eq hwf, hok,
      Clause.clauses_formulaOfAll hcs hne, hentries⟩
  · intro text f h
    have hf := Formula.isPlain_of_parse h
    obtain ⟨d, log, hrun, hd⟩ := run_of_parse s n strict check threshold h
    refine ⟨d, log, f.plainForms, _, hrun, Formula.forms_eq hf.wellFormed, hd.clauses, ?_⟩
    intro hfunctions
    have hcs := Formula.clauses_ne_nil hf.wellFormed
    have hne : ∀ c ∈ f.plainForms.clauses, c ≠ [] := fun _ => Formula.ne_nil_of_mem_clauses
    have hplain : ∀ c ∈ f.plainForms.clauses, Clause.IsPlain c := fun c hc =>
      Formula.isPlain_of_mem_clauses hf hc (hfunctions c hc)
    obtain ⟨d', log', hrun', -, hentries, hhorn, htptp⟩ :=
      run_writingAll s' n m strict' check' threshold' hcs hne hplain
    refine ⟨_, d', log', hd.step?_clauses, hrun', hentries, ?_, ?_, ?_⟩
    · rintro rfl
      exact Except.ok.inj (hentries.symm.trans hd.clauses)
    · rw [hhorn, hd.allHorn]
    · rw [htptp, hd.tptp]

theorem conversion_reproduces_clauses_of_repetitions :
    let c : Clause := [⟨true, ⟨"P", [.var "x"]⟩⟩, ⟨false, ⟨"Q", [.var "x", .var "_1"]⟩⟩,
      ⟨true, ⟨"P", [.var "x"]⟩⟩]
    let cs : List Clause := [c, c, [⟨false, ⟨"existsR", []⟩⟩], c]
    cs ≠ [] ∧ (∀ c ∈ cs, c ≠ []) ∧ (∀ c ∈ cs, c.IsPlain) ∧
      ∃ text d log f F names step d' log', Clause.renderAll .text cs = .ok text ∧
        run { text, markup := some "latex", strict := some true } {} ({ · with threshold := 30 }) =
          .ok (d, log) ∧
        Formula.parse true text = .ok f ∧
        f.forms.run.run (Names.ofFormula f) = (.ok F, names) ∧ F.clauses = cs ∧
        (∀ c ∈ F.clauses, c.functions = []) ∧ d.step? "clauses" = some step ∧
        run { text := step.text, markup := some "latex" } {} ({ · with threshold := 30 }) =
          .ok (d', log') ∧
        d'.clauses = d.clauses := by
  intro c cs
  have hne : ∀ c ∈ cs, c ≠ [] := by decide
  have hplain : ∀ c ∈ cs, c.IsPlain := by decide
  obtain ⟨text, d, log, f, F, names, hrender, hrun, hparse, hforms, -, hcs, -⟩ :=
    (conversion_reproduces_clauses {} {} .text .latex (some true) none none none 30 30).1 cs
      (by decide) hne hplain
  obtain ⟨d₁, log₁, F₁, names₁, hrun₁, hforms₁, -, hstep⟩ :=
    (conversion_reproduces_clauses {} {} .latex .latex (some true) none none none 30 30).2 text f
      hparse
  obtain ⟨rfl, rfl⟩ := Prod.ext_iff.mp (Except.ok.inj (hrun.symm.trans hrun₁))
  obtain rfl : F = F₁ := Except.ok.inj (congrArg Prod.fst (hforms.symm.trans hforms₁))
  have hfunctions : ∀ c ∈ F.clauses, c.functions = [] := by
    rw [hcs]
    decide
  obtain ⟨step, d', log', hkey, hagain, -, hclauses, -⟩ := hstep hfunctions
  exact ⟨by decide, hne, hplain, text, d, log, f, F, names, step, d', log', hrender, hrun, hparse,
    hforms, hcs, hfunctions, hkey, hagain, hclauses rfl⟩

end Request

end Clausification
