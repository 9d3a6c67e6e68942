import Clausification.Proofs.Derivation.Meaning
import Clausification.Proofs.Derivation.Names
import Clausification.Proofs.Derivation.Record
import Clausification.Proofs.Form.Closure

/-!
# Clauses of open formulas

Skolem terms get the universal variables of the prefix for arguments and no free variables. In clauses
free variables are read as universal ones all the same, as if they were quantified behind the prefix.
So clauses may be without a model although the formula is true for all values of its free variables in
some; this takes a free variable in the scope of an existential quantifier.
-/

namespace Clausification

/-- The prenex form of a formula with universal quantifiers over its free variables behind the
prefix. -/
def Forms.closureBehindPrefix (F : Forms) (f : Formula) : Formula :=
  Prenex.formula ⟨F.prenex.splitPrefix.quantifiers ++ Prefix.closing f.freeVars,
    F.prenex.splitPrefix.matrix⟩

namespace Formula

universe u

section
variable {D : Type u} [Nonempty D] (M : Interpretation D) (ρ : Assignment D) {f : Formula}

theorem closureBehindPrefix_plainForms (hf : f.wellFormed) : f.plainForms.closureBehindPrefix f =
    Prenex.formula ⟨f.renamedForm.1.quantifiers ++ Prefix.closing f.freeVars,
      f.renamedForm.1.matrix⟩ := by
  rw [Forms.closureBehindPrefix, splitPrefix_prenex hf]

/-- Behind the prefix, the quantifiers over the free variables add nothing to the Skolem terms. -/
theorem holds_closureBehindPrefix (hf : f.wellFormed) :
    (f.plainForms.closureBehindPrefix f).holds M ρ ↔
      ∃ M', M'.AgreesOutside f.plainForms.skolemSymbols M ∧
        ∀ ρ' : Assignment D, ∀ c ∈ f.plainForms.clauses, Clause.holds M' ρ' c := by
  let qs := f.renamedForm.1.quantifiers
  have hnodup : ((qs ++ Prefix.closing f.freeVars).map Prod.snd).Nodup := by
    rw [List.map_append, map_snd_quantifiers, Prefix.map_snd_closing]
    apply f.binders_renamed_nodup.append (List.nodup_dedup _)
    intro x hx hfree
    exact f.binders_renamed_fresh x hx (f.freeVars_subset_symbols (List.mem_dedup.mp hfree))
  have hvars : f.plainForms.skolem.freeVars ⊆
      Prefix.universals (qs ++ Prefix.closing f.freeVars) := by
    intro x hx
    rw [Prefix.universals_append_closing, List.mem_append, List.mem_dedup]
    exact (mem_freeVars_skolem hf hx).symm
  have hskolem := holds_skolemize (matrix_renamed hf).quantifierFree hnodup
    f.functions_matrix_subset_taken M ρ
  rw [Prefix.skolemTerms_append_closing] at hskolem
  rw [closureBehindPrefix_plainForms hf]
  refine hskolem.trans (exists_congr ?_)
  intro M'
  apply and_congr_right
  intro _
  exact (forall_holds_iff_of_freeVars_subset M' ρ hvars).trans
    (forall_congr' fun ρ' => holds_groups M' ρ' (skolem_plainForms hf))

theorem holds_closureBehindPrefix_of_closure (hf : f.wellFormed)
    (hscope : f.plainForms.renamed.OutsideExistentials f.freeVars) (h : f.closure.holds M ρ) :
    (f.plainForms.closureBehindPrefix f).holds M ρ := by
  rw [holds_closure] at h
  have hfree : ∀ y ∈ f.plainForms.renamed.binders, y ∉ f.plainForms.renamed.freeVars := by
    intro y hy hmem
    exact f.binders_renamed_fresh y hy
      (f.freeVars_subset_symbols (f.mem_freeVars_renamed.mp hmem))
  have hpulled := (renamed_plainForms hf).ranges_matrix f.binders_renamed_nodup hfree hscope
    (C := fun _ p => p) ⟨fun _ _ _ hp => hp, fun _ _ _ _ _ => Iff.rfl⟩ (ρ := ρ)
    fun ρ' _ => (holds_renamed M hf ρ').mpr (h ρ')
  rw [closureBehindPrefix_plainForms hf, Prefix.holds_formula, Prefix.ranges_append]
  exact Prefix.ranges_mono _ (fun τ hτ => (Prefix.ranges_closing _).mpr hτ) hpulled

end

variable {f : Formula}

theorem satisfiable_closureBehindPrefix (hf : f.wellFormed) :
    (f.plainForms.closureBehindPrefix f).Satisfiable.{u} ↔
      Clause.Satisfiable.{u} f.plainForms.clauses := by
  constructor
  · rintro ⟨D, hD, M, ρ, h⟩
    obtain ⟨M', -, hM'⟩ := (holds_closureBehindPrefix M ρ hf).mp h
    exact ⟨D, hD, M', hM'⟩
  · rintro ⟨D, hD, M, h⟩
    exact ⟨D, hD, M, fun _ => Classical.arbitrary D, (holds_closureBehindPrefix M _ hf).mpr
      ⟨M, Interpretation.agreesOutside_refl _ M, h⟩⟩

theorem satisfiable_closure_of_clauses (hf : f.wellFormed)
    (h : Clause.Satisfiable.{u} f.plainForms.clauses) : f.closure.Satisfiable.{u} := by
  obtain ⟨D, hD, M, h⟩ := h
  refine ⟨D, hD, M, fun _ => Classical.arbitrary D, (holds_closure M _ f).mpr ?_⟩
  intro ρ
  exact (holds_clauses M hf ρ).mpr
    ⟨M, Interpretation.agreesOutside_refl _ M, fun ρ' _ => h ρ'⟩

theorem satisfiable_clauses_iff_closure (hf : f.wellFormed)
    (hscope : f.plainForms.renamed.OutsideExistentials f.freeVars) :
    Clause.Satisfiable.{u} f.plainForms.clauses ↔ f.closure.Satisfiable.{u} := by
  refine ⟨satisfiable_closure_of_clauses hf, ?_⟩
  rintro ⟨D, hD, M, ρ, h⟩
  exact (satisfiable_closureBehindPrefix hf).mp
    ⟨D, hD, M, ρ, holds_closureBehindPrefix_of_closure M ρ hf hscope h⟩

end Formula

namespace Request

universe u

/-- The clauses of a text say what its formula says with the free variables quantified behind the
prefix of the prenex form, and so no less than with all of them quantified in front. They say the same
if no free variable is in the scope of an existential quantifier. -/
theorem free_variables_are_quantified_behind_prefix (s : Settings) (n : Notation)
    (strict check : Option Bool) (threshold : Nat) (text : String) (f : Formula)
    (h : Formula.parse (strict.getD s.strict) text = .ok f) :
    ∃ d log F names,
      run { text, markup := some n.name, strict, check } s ({ · with threshold }) = .ok (d, log) ∧
      f.forms.run.run (Names.ofFormula f) = (.ok F, names) ∧
      Clause.entries n 1 F.clauses = .ok d.clauses ∧ d.tptp = Tptp.lines "c" F.clauses ∧
      (Clause.Satisfiable.{u} F.clauses ↔ (F.closureBehindPrefix f).Satisfiable.{u}) ∧
      (Clause.Satisfiable.{u} F.clauses → f.closure.Satisfiable.{u}) ∧
      (F.renamed.OutsideExistentials f.freeVars →
        (Clause.Satisfiable.{u} F.clauses ↔ f.closure.Satisfiable.{u})) := by
  have hf := (Formula.isPlain_of_parse h).wellFormed
  obtain ⟨d, log, hrun, hd⟩ := run_of_parse s n strict check threshold h
  exact ⟨d, log, f.plainForms, f.skolemForm.2, hrun, Formula.forms_eq hf, hd.clauses, hd.tptp,
    (Formula.satisfiable_closureBehindPrefix hf).symm, Formula.satisfiable_closure_of_clauses hf,
    Formula.satisfiable_clauses_iff_closure hf⟩

theorem free_variables_are_quantified_behind_prefix_of_separate_scopes :
    let text := "∀z. (P(x) ∨ ∃y. Q(y, z))"
    let f : Formula := .all "z" (.or (.atom ⟨"P", [.var "x"]⟩)
      (.ex "y" (.atom ⟨"Q", [.var "y", .var "z"]⟩)))
    Formula.parse false text = .ok f ∧
      ∃ d log F names,
        run { text, markup := some "text" } {} ({ · with threshold := 30 }) = .ok (d, log) ∧
        f.forms.run.run (Names.ofFormula f) = (.ok F, names) ∧
        d.tptp = Tptp.lines "c" F.clauses ∧ F.renamed.OutsideExistentials f.freeVars ∧
        (Clause.Satisfiable.{0} F.clauses ↔ f.closure.Satisfiable.{0}) := by
  intro text f
  have hf : f.IsPlain := by decide
  have hwriting : f.writing .text = text := by rfl
  have hparse : Formula.parse false text = .ok f := hwriting ▸ Formula.parse_writing hf false
  obtain ⟨d, log, F, names, hrun, hforms, -, hlines, -, -, hscope⟩ :=
    free_variables_are_quantified_behind_prefix.{0} {} .text none none 30 text f hparse
  have hF : F = f.plainForms :=
    Except.ok.inj (congrArg Prod.fst (hforms.symm.trans (Formula.forms_eq hf.wellFormed)))
  have houtside : F.renamed.OutsideExistentials f.freeVars := by
    rw [hF]
    exact ⟨trivial, by decide, trivial⟩
  exact ⟨hparse, d, log, F, names, hrun, hforms, hlines, houtside, hscope houtside⟩

/-- A model for all values of a free variable, in which an existential variable depends on it. The
clauses have a constant for this one, and no model. -/
theorem free_variable_loses_models :
    let text := "∃y. (R(x, y) ∧ ¬R(y, y))"
    let f : Formula := .ex "y" (.and (.atom ⟨"R", [.var "x", .var "y"]⟩)
      (.not (.atom ⟨"R", [.var "y", .var "y"]⟩)))
    Formula.parse false text = .ok f ∧
      ∃ F names, f.forms.run.run (Names.ofFormula f) = (.ok F, names) ∧
        Tptp.lines "c" F.clauses =
          ["cnf(c1, axiom, (r(X,c1))).", "cnf(c2, axiom, (~r(c1,c1)))."] ∧
        f.closure.Satisfiable.{0} ∧ ¬ Clause.Satisfiable.{0} F.clauses := by
  intro text f
  have hf : f.IsPlain := by decide
  have hwriting : f.writing .text = text := by rfl
  have hparse : Formula.parse false text = .ok f := hwriting ▸ Formula.parse_writing hf false
  have hclauses : f.plainForms.clauses =
      [[⟨true, ⟨"R", [.var "x", .app "c1" []]⟩⟩],
        [⟨false, ⟨"R", [.app "c1" [], .app "c1" []]⟩⟩]] := by decide +kernel
  refine ⟨hparse, f.plainForms, f.skolemForm.2, Formula.forms_eq hf.wellFormed, ?_⟩
  rw [hclauses]
  refine ⟨by decide, ?_, ?_⟩
  · let M : Interpretation Bool := ⟨fun _ _ => false, fun _ es => es.head? ≠ es.getLast?⟩
    refine ⟨Bool, inferInstance, M, fun _ => false, (Formula.holds_closure M _ f).mpr ?_⟩
    intro ρ
    exact ⟨!ρ "x", by simp [Formula.holds, Connective.joins, Atom.holds, Term.value, M]⟩
  · rintro ⟨D, hD, M, hM⟩
    have hM := hM fun _ => M.function "c1" []
    simp [Clause.holds, Literal.holds, Atom.holds, Term.value] at hM

end Request

end Clausification
