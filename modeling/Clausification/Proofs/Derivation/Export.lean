import Clausification.Proofs.Clause.Words
import Clausification.Proofs.Derivation.Names
import Clausification.Proofs.Derivation.Run
import Clausification.Proofs.Form.Plain

/-!
# The clauses of a text as a problem

The clauses of a text have the names of the text for predicates and variables, Skolem symbols for
functions, and variables that were renamed by a number. As words of a problem they keep apart what
differs in more than the way it begins, and Skolem symbols are words as they are. What is satisfiable
stays so as far as different names have different words.
-/

namespace Clausification

theorem Names.isIdentifier_of_isSkolemName {g : String} (hg : IsSkolemName g) :
    isIdentifier g.toList := by
  obtain ⟨base, hbase, n, hn, rfl⟩ := hg
  have hidentifier : ∀ b ∈ [skolemConstantLetter, skolemFunctionLetter],
      isIdentifier b.toList := by decide
  exact isIdentifier_skolemName (hidentifier base hbase) hn

theorem Tptp.lowerWord_of_isSkolemName {g : String} (hg : Names.IsSkolemName g) :
    lowerWord g = g := by
  have hidentifier := Names.isIdentifier_of_isSkolemName hg
  obtain ⟨base, hbase, n, hn, rfl⟩ := hg
  rw [← Casing.lower_word]
  simp only [List.mem_cons, List.not_mem_nil, or_false] at hbase
  rcases hbase with rfl | rfl
  · exact Casing.lower.word_eq_self hidentifier (String.toList_append ..) (by decide) (by decide)
  · exact Casing.lower.word_eq_self hidentifier (String.toList_append ..) (by decide) (by decide)

namespace Formula
variable {f : Formula}

theorem isName_of_mem_predicates (hf : f.IsPlain) {c : Clause} (hc : c ∈ f.plainForms.clauses)
    {p : String} (hp : p ∈ c.predicates) : isName p := by
  have hwf := hf.wellFormed
  obtain ⟨l, hl, rfl⟩ := List.mem_map.mp hp
  have hatom : l.atom ∈ f.plainForms.skolem.atoms :=
    atom_mem_of_mem_groups (skolem_plainForms hwf) hc hl
  -- Skolem terms come in below the predicates
  have hatoms : f.plainForms.skolem.atoms =
      f.plainForms.renamed.matrix.atoms.map (·.replace f.skolemForm.1) :=
    (matrix_renamed hwf).quantifierFree.atoms_replace _
  rw [hatoms, atoms_matrix] at hatom
  obtain ⟨a, ha, heq⟩ := List.mem_map.mp hatom
  rw [← heq]
  exact (hf.renamed.atoms ha).1

theorem isName_of_mem_vars (hf : f.IsPlain) {c : Clause} (hc : c ∈ f.plainForms.clauses)
    {x : String} (hx : x ∈ c.vars) : isName x := by
  obtain ⟨l, hl, hx⟩ := List.mem_flatMap.mp hx
  rcases mem_vars_clauses hf.wellFormed hc hl hx with hfree | huniversal
  · exact hf.isName_of_mem_freeVars hfree
  · exact hf.renamed.isName_of_mem_binders (f.universals_subset_binders huniversal)

theorem isSkolemName_of_mem_functions (hf : f.IsPlain) {c : Clause} (hc : c ∈ f.plainForms.clauses)
    {g : String} (hg : g ∈ c.functions) : Names.IsSkolemName g := by
  obtain ⟨l, hl, hg⟩ := List.mem_flatMap.mp hg
  have hatom : l.atom ∈ f.plainForms.skolem.atoms :=
    atom_mem_of_mem_groups (skolem_plainForms hf.wellFormed) hc hl
  have hsymbol : g ∈ f.plainForms.skolemSymbols :=
    functions_skolem_subset hf (List.mem_flatMap.mpr ⟨l.atom, hatom, hg⟩)
  obtain ⟨e, he, rfl⟩ := List.mem_map.mp (mem_skolemSymbols.mp hsymbol)
  have hstart : 0 ≤ f.renamedForm.2.skolems := by
    rw [renamedForm, skolems_renamedWith]
    exact Int.le_refl 0
  exact Prefix.isSkolemName_of_mem_skolemEntries hstart he

end Formula

namespace Tptp

/-- Two names have one word exactly if they differ in nothing but the case of the first letter, or in a
letter in front of an underscore; functions have different words. -/
structure KeepsNames (cs : List Clause) : Prop where
  predicates : ∀ p ∈ cs.flatMap Clause.predicates, ∀ q ∈ cs.flatMap Clause.predicates,
    (lowerWord p = lowerWord q ↔ SameButCase p q ∨ Behind 's' p q ∨ Behind 's' q p)
  functions : Set.InjOn lowerWord {g | g ∈ cs.flatMap Clause.functions}
  vars : ∀ c ∈ cs, ∀ x ∈ c.vars, ∀ y ∈ c.vars,
    (upperWord x = upperWord y ↔ SameButCase x y ∨ Behind 'V' x y ∨ Behind 'V' y x)

theorem keepsNames_clauses {f : Formula} (hf : f.IsPlain) : KeepsNames f.plainForms.clauses := by
  refine ⟨fun p hp q hq => ?_, fun g hg g' hg' h => ?_, fun c hc x hx y hy => ?_⟩
  · obtain ⟨c, hc, hp⟩ := List.mem_flatMap.mp hp
    obtain ⟨d, hd, hq⟩ := List.mem_flatMap.mp hq
    rw [← Casing.lower_word]
    exact Casing.lower.word_eq_word_iff
      (isIdentifier_of_isName (Formula.isName_of_mem_predicates hf hc hp))
      (isIdentifier_of_isName (Formula.isName_of_mem_predicates hf hd hq))
  · obtain ⟨c, hc, hg⟩ := List.mem_flatMap.mp hg
    obtain ⟨d, hd, hg'⟩ := List.mem_flatMap.mp hg'
    rwa [lowerWord_of_isSkolemName (Formula.isSkolemName_of_mem_functions hf hc hg),
      lowerWord_of_isSkolemName (Formula.isSkolemName_of_mem_functions hf hd hg')] at h
  · rw [← Casing.upper_word]
    exact Casing.upper.word_eq_word_iff
      (isIdentifier_of_isName (Formula.isName_of_mem_vars hf hc hx))
      (isIdentifier_of_isName (Formula.isName_of_mem_vars hf hc hy))

end Tptp

namespace Request
open Tptp

universe u

/-- The lines of a text are its clauses with words for names. They keep the functions apart, and
predicates and variables as far as these begin alike; so where different names have different words,
the clauses and the exported ones are satisfiable together. -/
theorem export_keeps_names (s : Settings) (n : Notation) (strict check : Option Bool)
    (threshold : Nat) (text : String) (f : Formula)
    (h : Formula.parse (strict.getD s.strict) text = .ok f) :
    ∃ d log F names exported,
      run { text, markup := some n.name, strict, check } s ({ · with threshold }) = .ok (d, log) ∧
      f.forms.run.run (Names.ofFormula f) = (.ok F, names) ∧
      exported = F.clauses.map words.clause ∧ exported.map words.clause = exported ∧
      d.tptp = lines "c" F.clauses ∧ d.tptp = lines "c" exported ∧
      KeepsNames F.clauses ∧
      (Set.InjOn lowerWord {p | p ∈ F.clauses.flatMap Clause.predicates} →
        Clause.Satisfiable.{u} F.clauses → Clause.Satisfiable.{u} exported) ∧
      ((∀ c ∈ F.clauses, Set.InjOn upperWord {x | x ∈ c.vars}) →
        Clause.Satisfiable.{u} exported → Clause.Satisfiable.{u} F.clauses) := by
  have hf := Formula.isPlain_of_parse h
  have hkeeps := keepsNames_clauses hf
  let skips := (Formula.parseWithSkips (strict.getD s.strict) text).2
  have hparsed : Formula.parseWithSkips (strict.getD s.strict) text = (.ok f, skips) :=
    Prod.ext h rfl
  let o : Options :=
    { markup := n, strict := strict.getD s.strict, check := check.getD s.check, threshold }
  let p := (Progress.start n text).completed o skips f
  have hrun : run { text, markup := some n.name, strict, check } s ({ · with threshold }) =
      .ok (p.record.withReport, p.log) := by
    rw [run_eq]
    exact congrArg (Except.mapError RequestError.unwritable) (derive_eq (o := o) rfl rfl hparsed hf)
  refine ⟨p.record.withReport, p.log, f.plainForms, f.skolemForm.2, _, hrun,
    Formula.forms_eq hf.wellFormed, rfl, ?_, rfl, (lines_words "c" _).symm, hkeeps, ?_, ?_⟩
  · rw [List.map_map]
    refine List.map_congr_left fun c _ => ?_
    rw [Function.comp, ← Relabeling.clause_comp, words_comp_words]
  · exact fun hpredicates => Relabeling.satisfiable_map_clause hpredicates hkeeps.functions
  · exact fun hvars => Relabeling.satisfiable_of_map_clause hvars

theorem export_keeps_names_of_quantified_text :
    let text := "∀x. ∃y. (P(x, y) ∧ ¬Q(y))"
    let f : Formula := .all "x" (.ex "y" (.and (.atom ⟨"P", [.var "x", .var "y"]⟩)
      (.not (.atom ⟨"Q", [.var "y"]⟩))))
    Formula.parse false text = .ok f ∧
      ∃ d log F names exported,
        run { text, markup := some "text" } {} ({ · with threshold := 30 }) = .ok (d, log) ∧
        f.forms.run.run (Names.ofFormula f) = (.ok F, names) ∧
        exported = F.clauses.map words.clause ∧ d.tptp = lines "c" exported ∧
        KeepsNames F.clauses := by
  intro text f
  have hf : f.IsPlain := by decide
  have hwriting : f.writing .text = text := by rfl
  have hparse : Formula.parse false text = .ok f := hwriting ▸ Formula.parse_writing hf false
  obtain ⟨d, log, F, names, exported, hrun, hforms, hexported, -, -, hlines, hkeeps, -⟩ :=
    export_keeps_names.{0} {} .text none none 30 text f hparse
  exact ⟨hparse, d, log, F, names, exported, hrun, hforms, hexported, hlines, hkeeps⟩

/-- Two predicates that differ in the case of the first letter become one, and the problem loses its
models. -/
theorem export_merges_cases_of_a_letter :
    let text := "P ∧ ¬p"
    let f : Formula := .and (.atom ⟨"P", []⟩) (.not (.atom ⟨"p", []⟩))
    Formula.parse false text = .ok f ∧
      ∃ F names, f.forms.run.run (Names.ofFormula f) = (.ok F, names) ∧
        "P" ∈ F.clauses.flatMap Clause.predicates ∧ "p" ∈ F.clauses.flatMap Clause.predicates ∧
        "P" ≠ "p" ∧ lowerWord "P" = lowerWord "p" ∧
        lines "c" F.clauses = ["cnf(c1, axiom, (p)).", "cnf(c2, axiom, (~p))."] ∧
        Clause.Satisfiable.{0} F.clauses ∧
        ¬ Clause.Satisfiable.{0} (F.clauses.map words.clause) := by
  intro text f
  have hf : f.IsPlain := by decide
  have hwriting : f.writing .text = text := by rfl
  have hparse : Formula.parse false text = .ok f := hwriting ▸ Formula.parse_writing hf false
  have hclauses : f.plainForms.clauses = [[⟨true, ⟨"P", []⟩⟩], [⟨false, ⟨"p", []⟩⟩]] := rfl
  have hwords : f.plainForms.clauses.map words.clause =
      [[⟨true, ⟨"p", []⟩⟩], [⟨false, ⟨"p", []⟩⟩]] := by
    rw [hclauses]
    decide
  refine ⟨hparse, f.plainForms, f.skolemForm.2, Formula.forms_eq hf.wellFormed, ?_⟩
  rw [hwords, hclauses]
  refine ⟨by decide, by decide, by decide, by decide, by decide, ?_, ?_⟩
  · let M : Interpretation Unit := ⟨fun _ _ => (), fun p _ => p = "P"⟩
    exact ⟨Unit, inferInstance, M, fun ρ => by
      simp [Clause.holds, Literal.holds, Atom.holds, M]⟩
  · rintro ⟨D, hD, M, hM⟩
    have hM := hM fun _ => Classical.arbitrary D
    simp [Clause.holds, Literal.holds, Atom.holds] at hM

end Request

end Clausification
