import Clausification.Proofs.Derivation.Record
import Clausification.Proofs.Formula.Polarity

/-!
# Clauses keep the signs

The literals of the clauses are the occurrences in the formula, each under its own sign, and so are
those of the disjunctive normal form. Pairing repeats literals, so both sides are compared as sets.
-/

namespace Clausification

namespace Formula
variable {f : Formula} {outer : Connective}

theorem mem_literals_distributed (houter : outer.IsJunction) (hf : f.Matrix) {l : Literal} :
    l ∈ (f.distributed outer).literals ↔ l ∈ f.literals := by
  have hmatrix := (normalForm_distributed houter hf).matrix houter
  have hgroups : l ∈ ((f.distributed outer).groups outer).flatten ↔ _ := mem_flatten_groups hmatrix
  rw [← hgroups, groups_distributed houter hf, mem_flatten_groups hf]

/-- The way of an occurrence from the formula to the Skolem form. -/
theorem mem_occurrences_skolem (hf : f.wellFormed) {o : Occurrence} :
    o ∈ f.plainForms.skolem.occurrences true ↔ o ∈ f.occurrences true := by
  have hmatrix : f.plainForms.skolem.occurrences true = f.renamedForm.1.matrix.occurrences true :=
    occurrences_replace _ _
  have hrenamed : f.renamedForm.1.occurrences true = f.plainForms.negationNormal.occurrences true :=
    occurrences_renamedWith _ [] _
  have hsigned : f.plainForms.negationNormal.occurrences true =
      f.plainForms.implicationFree.occurrences true :=
    (implicationFree_plainForms hf).occurrences_signed false
  rw [hmatrix, occurrences_matrix, hrenamed, hsigned]
  exact mem_occurrences_withoutImplications

theorem mem_map_occurrence_skolem (hf : f.wellFormed) {ls : List Literal}
    (hls : ∀ l, l ∈ ls ↔ l ∈ f.plainForms.skolem.literals) (o : Occurrence) :
    o ∈ ls.map Literal.occurrence ↔ o ∈ f.occurrences true := by
  rw [← mem_occurrences_skolem hf, ← (skolem_plainForms hf).map_occurrence_literals]
  simp only [List.mem_map, hls]

end Formula

namespace Request

/-- Of no occurrence in a text is the sign lost or turned around: the literals of its clauses have
exactly the predicates, numbers of arguments and signs that occur in the formula, and those of the
disjunctive normal form have the same. -/
theorem literals_keep_signs (s : Settings) (n : Notation) (strict check : Option Bool)
    (threshold : Nat) (text : String) (f : Formula)
    (h : Formula.parse (strict.getD s.strict) text = .ok f) :
    ∃ d log F names g,
      run { text, markup := some n.name, strict, check } s ({ · with threshold }) = .ok (d, log) ∧
      f.forms.run.run (Names.ofFormula f) = (.ok F, names) ∧
      Clause.entries n 1 F.clauses = .ok d.clauses ∧
      F.skolem.disjunctive = .ok g ∧
      (∀ o, o ∈ F.clauses.flatten.map Literal.occurrence ↔ o ∈ f.occurrences true) ∧
      ∀ o, o ∈ g.literals.map Literal.occurrence ↔ o ∈ f.occurrences true := by
  have hf := (Formula.isPlain_of_parse h).wellFormed
  have hmatrix := Formula.skolem_plainForms hf
  obtain ⟨d, log, hrun, hrecord⟩ := run_of_parse s n strict check threshold h
  refine ⟨d, log, f.plainForms, f.skolemForm.2, _, hrun, Formula.forms_eq hf, hrecord.clauses,
    Formula.disjunctive_eq hmatrix, ?_, ?_⟩
  · apply Formula.mem_map_occurrence_skolem hf
    intro l
    exact Formula.mem_flatten_groups hmatrix
  · apply Formula.mem_map_occurrence_skolem hf
    intro l
    exact Formula.mem_literals_distributed (Or.inr rfl) hmatrix

theorem literals_keep_signs_of_nested_equivalence :
    let text := "(P(x) ↔ ¬Q) → ∃y. R(x, y)"
    let f : Formula := .implies (.iff (.atom ⟨"P", [.var "x"]⟩) (.not (.atom ⟨"Q", []⟩)))
      (.ex "y" (.atom ⟨"R", [.var "x", .var "y"]⟩))
    Formula.parse false text = .ok f ∧
      ∃ d log F names g,
        run { text, markup := some "text" } {} ({ · with threshold := 30 }) = .ok (d, log) ∧
        f.forms.run.run (Names.ofFormula f) = (.ok F, names) ∧
        F.skolem.disjunctive = .ok g ∧
        ∀ o, (o ∈ F.clauses.flatten.map Literal.occurrence ↔
            o ∈ g.literals.map Literal.occurrence) ∧
          (o ∈ F.clauses.flatten.map Literal.occurrence ↔
            o ∈ [⟨false, "P", 1⟩, ⟨true, "P", 1⟩, ⟨true, "Q", 0⟩, ⟨false, "Q", 0⟩,
              (⟨true, "R", 2⟩ : Occurrence)]) := by
  intro text f
  have hf : f.IsPlain := by decide
  have hwriting : f.writing .text = text := by rfl
  have hparse : Formula.parse false text = .ok f := hwriting ▸ Formula.parse_writing hf false
  obtain ⟨d, log, F, names, g, hrun, hforms, -, hdisjunctive, hclauses, hliterals⟩ :=
    literals_keep_signs {} .text none none 30 text f hparse
  refine ⟨hparse, d, log, F, names, g, hrun, hforms, hdisjunctive, fun o => ⟨?_, hclauses o⟩⟩
  rw [hclauses, hliterals]

end Request

end Clausification
