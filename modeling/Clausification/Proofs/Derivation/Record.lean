import Clausification.Proofs.Derivation.Steps

/-!
# The record of a formula

A request whose text spells a formula comes to a record that the formula and the notation decide: its
steps, its clauses with their kinds, and its lines.
-/

namespace Clausification

/-- The record holds what becomes of the formula in a notation. -/
structure Derivation.Records (n : Notation) (f : Formula) (d : Derivation) : Prop where
  ok : d.ok = true
  steps : d.steps = f.steps n f.plainForms.clauses
  clauses : Clause.entries n 1 f.plainForms.clauses = .ok d.clauses
  allHorn : d.allHorn = some (Clausification.allHorn (f.plainForms.clauses.map (·.kind)))
  tptp : d.tptp = Tptp.lines "c" f.plainForms.clauses

theorem Progress.steps_completed (o : Options) (skips : List Unrecognized) {f : Formula}
    (hf : f.wellFormed) (text : String) :
    ((Progress.start o.markup text).completed o skips f).record.steps =
      f.steps o.markup f.plainForms.clauses := by
  have hempty : ¬ f.plainForms.clauses.isEmpty := by simpa using Formula.clauses_ne_nil hf
  rw [Formula.steps, Clause.steps, if_neg hempty]
  rfl

theorem Request.run_of_parse (s : Settings) (n : Notation) (strict check : Option Bool)
    (threshold : Nat) {text : String} {f : Formula}
    (h : Formula.parse (strict.getD s.strict) text = .ok f) :
    ∃ d log, run { text, markup := some n.name, strict, check } s ({ · with threshold }) =
        .ok (d, log) ∧ d.Records n f := by
  have hf := Formula.isPlain_of_parse h
  let skips := (Formula.parseWithSkips (strict.getD s.strict) text).2
  have hparsed : Formula.parseWithSkips (strict.getD s.strict) text = (.ok f, skips) :=
    Prod.ext h rfl
  let o : Options :=
    { markup := n, strict := strict.getD s.strict, check := check.getD s.check, threshold }
  let p := (Progress.start n text).completed o skips f
  have hrun : run { text, markup := some n.name, strict, check } s ({ · with threshold }) =
      .ok (p.record.withReport, p.log) := by
    rw [run_eq]
    exact congrArg (Except.mapError RequestError.unwritable) (derive_eq (o := o) rfl rfl hparsed hf)
  refine ⟨p.record.withReport, p.log, hrun, ?_⟩
  exact
    { ok := rfl
      steps := Progress.steps_completed o skips hf.wellFormed text
      clauses := Clause.entries_eq n 1 fun _ hc =>
        Formula.atom_wellFormed_of_mem_clauses hf.wellFormed hc
      allHorn := rfl
      tptp := rfl }

end Clausification
