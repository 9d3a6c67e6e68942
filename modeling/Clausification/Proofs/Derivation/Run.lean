import Clausification.Proofs.Clause.Writing
import Clausification.Proofs.Derivation.Checks
import Clausification.Proofs.Formula.Writing
import Clausification.Proofs.Reader.Names

/-!
# Derivations run through

What a derivation has made of its record after each of its parts. None of it depends on whether the
checks are made.
-/

namespace Clausification

namespace Progress

/-- The progress with one more step. -/
def step (key label text : String) (p : Progress) : Progress :=
  { p with record := { p.record with steps := p.record.steps ++ [{ key, label, text }] } }

/-- The progress with those of the log records that are severe enough. -/
def logged (threshold : Nat) (rs : List Log.Record) (p : Progress) : Progress :=
  { p with log := p.log ++ rs.filter (threshold ≤ ·.level.severity) }

theorem logged_eq_self {threshold : Nat} {rs : List Log.Record} (p : Progress)
    (h : ∀ r ∈ rs, ¬ threshold ≤ r.level.severity) : p.logged threshold rs = p := by
  have hnone : rs.filter (threshold ≤ ·.level.severity) = [] :=
    List.filter_eq_nil_iff.mpr fun r hr => by simpa using h r hr
  rw [logged, hnone, List.append_nil]

/-- The progress behind the reading of the text. -/
def read (o : Options) (skips : List Unrecognized) (p : Progress) : Progress :=
  let p := p.logged o.threshold (skips.map fun u => ⟨.lexer, .warning, u.skippedMessage⟩)
  { p with record := { p.record with warnings := skips.map (·.warning) } }

/-- The progress behind a stage. -/
def advanced (o : Options) (f : Formula) (stage : Stage) (p : Progress) : Progress :=
  let g := f.plainForms.form stage
  let p := ({ p with names := f.namesBehind stage }).logged o.threshold
    [⟨.pipeline, .debug, stage.key ++ ": " ++ g.writing .text⟩]
  p.step stage.key stage.label (g.writing o.markup)

/-- The progress behind the clauses, if there are any. -/
def concluded (n : Notation) (cs : List Clause) (p : Progress) : Progress :=
  let kinds := cs.map (·.kind)
  let p := p.step "clauses" "Clausal form (set of clauses)" (Clause.writingAll n cs)
  let p := { p with record :=
    { p.record with clauses := Clause.entriesFrom n 1 cs, allHorn := some (allHorn kinds) } }
  let p := p.step "horn" "Horn clause analysis"
    (Text.join n.signs.betweenLines (Clause.rowsFrom n 1 cs (kinds.map (·.name))))
  let p := p.step "horn_summary" "Horn summary" (n.prose (hornVerdict (allHorn kinds)))
  { p with record := { p.record with tptp := Tptp.lines "c" cs } }

/-- The progress of a text that spells a formula, from the beginning to the end. -/
def completed (o : Options) (skips : List Unrecognized) (f : Formula) (p : Progress) : Progress :=
  let p := { p.read o skips with names := Names.ofFormula f }
  let p := p.step "original" "Original formula" (f.writing o.markup)
  let p := Stage.all.foldl (fun p stage => p.advanced o f stage) p
  (p.concluded o.markup f.plainForms.clauses).step "dnf" "DNF: disjunctive normal form (comparison)"
    ((f.plainForms.skolem.distributed .or).writing o.markup)

end Progress

namespace Deriving
variable {p : Progress}

theorem run_orFail {α : Type} {x : Except Failure α} {a : α} (place : FailedAt) (h : x = .ok a) :
    (orFail place x).run.run p = (.ok a, p) := by
  rw [h]
  rfl

theorem run_written {α : Type} {x : Except Obstacle α} {a : α} (h : x = .ok a) :
    (written x).run.run p = (.ok a, p) := by
  rw [h]
  rfl

theorem run_update (f : Derivation → Derivation) :
    (update f).run.run p = (.ok (), { p with record := f p.record }) := rfl

theorem run_modify (f : Progress → Progress) :
    (modify f : Deriving Unit).run.run p = (.ok (), f p) := rfl

theorem run_addStep (key label text : String) :
    (addStep key label text).run.run p = (.ok (), p.step key label text) := rfl

theorem run_addLog (o : Options) (rs : List Log.Record) :
    (addLog o rs).run.run p = (.ok (), p.logged o.threshold rs) := rfl

theorem run_drawing {x : Naming Obstacle Formula} {r : Except Obstacle Formula} {names : Names}
    (h : x.run.run p.names = (r, names)) :
    (drawing x).run.run p = (.ok r, { p with names }) := by
  have hstep : (drawing x).run.run p =
      (.ok (x.run.run p.names).1, { p with names := (x.run.run p.names).2 }) := rfl
  rw [hstep, h]

/-- A check that finds nothing changes nothing. -/
theorem run_runStage {passes : Passes} {checks : Checks} {used : List String} {stage : Stage}
    {f g : Formula} {names after : Names} (check : Bool)
    (hpass : (passes.run stage f).run.run names = (.ok g, after))
    (hcheck : checks.run used stage g = []) :
    (runStage passes checks check used stage f).run.run names = (.ok g, after) := by
  rw [runStage, run_bind hpass, hcheck]
  cases check <;> rfl

theorem run_advance_of_runStage {o : Options} {f : Formula} (hf : f.wellFormed) (stage : Stage)
    (hstage : (runStage o.passes o.checks o.check f.symbols stage (f.formBefore stage)).run.run
      p.names = (.ok (f.plainForms.form stage), f.namesBehind stage)) :
    (advance o f.symbols stage (f.formBefore stage)).run.run p =
      (.ok (f.plainForms.form stage), p.advanced o f stage) := by
  have hwf := Formula.wellFormed_form hf stage
  have hok : (Except.ok (f.plainForms.form stage) : Except Obstacle Formula).mapError
      Failure.obstructed = .ok (f.plainForms.form stage) := rfl
  rw [advance, run_bind (run_drawing hstage), run_bind (run_orFail .transforming hok)]
  split
  · rw [run_bind (run_written (Formula.render_eq .text hwf)), run_bind (run_addLog o _),
      run_bind (run_written (Formula.render_eq o.markup hwf)), run_bind (run_addStep ..)]
    rfl
  · rw [run_bind (run_written (Formula.render_eq o.markup hwf)), run_bind (run_addStep ..),
      Progress.advanced, Progress.logged_eq_self _ (List.forall_mem_singleton.mpr ‹_›)]
    rfl

theorem run_advance {o : Options} (hpasses : o.passes = {}) (hchecks : o.checks = {}) {f : Formula}
    (hf : f.IsPlain) (stage : Stage) (hnames : p.names = f.namesBefore stage) :
    (advance o f.symbols stage (f.formBefore stage)).run.run p =
      (.ok (f.plainForms.form stage), p.advanced o f stage) := by
  have hpass : (o.passes.run stage (f.formBefore stage)).run.run p.names =
      (.ok (f.plainForms.form stage), f.namesBehind stage) := by
    rw [hpasses, hnames, Formula.run_pass hf.wellFormed]
  have hcheck : o.checks.run f.symbols stage (f.plainForms.form stage) = [] := by
    rw [hchecks, Formula.check_form hf]
  exact run_advance_of_runStage hf.wellFormed stage (run_runStage o.check hpass hcheck)

theorem run_read {o : Options} {text : String} {f : Formula} {skips : List Unrecognized}
    (h : Formula.parseWithSkips o.strict text = (.ok f, skips)) :
    (read o text).run.run p = (.ok f, p.read o skips) := by
  rw [read, h]
  rfl

theorem run_conclude {o : Options} {cs : List Clause} (hne : cs ≠ [])
    (hcs : ∀ c ∈ cs, Clause.WellFormed c) :
    (conclude o cs).run.run p = (.ok (), p.concluded o.markup cs) := by
  have hempty : ¬ cs.isEmpty := by simpa using hne
  rw [conclude, run_bind (run_written (Clause.renderAll_eq _ hcs)), run_bind (run_addStep ..),
    if_neg hempty, run_bind (run_written (Clause.entries_eq _ 1 hcs)), run_bind (run_update _),
    run_bind (run_written (Clause.table_eq _ _ hcs)), run_bind (run_addStep ..),
    run_bind (run_addStep ..)]
  rfl

theorem run_compare {o : Options} {f g : Formula} (hpass : o.passes.disjunctive f = .ok g)
    (hcheck : o.checks.disjunctive g = []) (hg : g.wellFormed) :
    (compare o f).run.run p = (.ok (), p.step "dnf" "DNF: disjunctive normal form (comparison)"
      (g.writing o.markup)) := by
  have hverified : ((do
      let g ← o.passes.disjunctive f
      if o.check then verified (o.checks.disjunctive g) g else return g).mapError
        Failure.obstructed) = .ok g := by
    rw [hpass]
    cases o.check
    · rfl
    · exact congrArg (fun issues => (verified issues g).mapError Failure.obstructed) hcheck
  rw [compare, run_bind (run_orFail .transforming hverified),
    run_bind (run_written (Formula.render_eq _ hg))]
  rfl

/-- A text that spells a formula is converted to the end. -/
theorem run_all {o : Options} (hpasses : o.passes = {}) (hchecks : o.checks = {}) {text : String}
    {f : Formula} {skips : List Unrecognized}
    (h : Formula.parseWithSkips o.strict text = (.ok f, skips)) (hf : f.IsPlain) :
    (all o text).run.run p = (.ok (), p.completed o skips f) := by
  have hwf := hf.wellFormed
  have hmatrix := Formula.skolem_plainForms hwf
  have hadvance (stage : Stage) (p : Progress) (hnames : p.names = f.namesBefore stage) :=
    run_advance hpasses hchecks hf stage hnames
  have hclauses : (o.passes.clauses f.plainForms.conjunctive).mapError Failure.obstructed =
      .ok f.plainForms.clauses := by
    rw [hpasses]
    exact congrArg (Except.mapError _) (Formula.stage_clauses hwf)
  have hdisjunctive : o.passes.disjunctive f.plainForms.skolem =
      .ok (f.plainForms.skolem.distributed .or) := by
    rw [hpasses]
    exact Formula.disjunctive_eq hmatrix
  have hcheck : o.checks.disjunctive (f.plainForms.skolem.distributed .or) = [] := by
    rw [hchecks]
    exact Formula.check_disjunctive hwf
  rw [all, run_bind (run_read h), run_bind (run_modify _),
    run_bind (run_written (Formula.render_eq _ hwf)), run_bind (run_addStep ..)]
  refine (run_bind (hadvance .implicationFree _ rfl)).trans ?_
  refine (run_bind (hadvance .negationNormal _ rfl)).trans ?_
  refine (run_bind (hadvance .renamed _ rfl)).trans ?_
  refine (run_bind (hadvance .prenex _ rfl)).trans ?_
  refine (run_bind (hadvance .skolem _ rfl)).trans ?_
  refine (run_bind (hadvance .conjunctive _ rfl)).trans ?_
  refine (run_bind (run_orFail .transforming hclauses)).trans ?_
  refine (run_bind (run_conclude (Formula.clauses_ne_nil hwf) fun c hc =>
    Formula.atom_wellFormed_of_mem_clauses hwf hc)).trans ?_
  exact run_compare hdisjunctive hcheck
    (Formula.wellFormed_distributed (Or.inr rfl) hmatrix (Formula.wellFormed_skolem hwf))

end Deriving

/-- The beginning of a derivation. -/
def Progress.start (n : Notation) (text : String) : Progress where
  record := { version, source := text, markup := n }

theorem derive_eq {o : Options} (hpasses : o.passes = {}) (hchecks : o.checks = {}) {text : String}
    {f : Formula} {skips : List Unrecognized}
    (h : Formula.parseWithSkips o.strict text = (.ok f, skips)) (hf : f.IsPlain) :
    derive o text = .ok (((Progress.start o.markup text).completed o skips f).record.withReport,
      ((Progress.start o.markup text).completed o skips f).log) := by
  have hrun := Deriving.run_all (p := Progress.start o.markup text) hpasses hchecks h hf
  simp only [derive, Progress.start] at hrun ⊢
  rw [hrun]

namespace Request

theorem request_markupName (n : Notation) (strict check : Option Bool) (s : Settings)
    (text : String) :
    Notation.request (markupName { text, markup := some n.name, strict, check } s) = .ok n := by
  have hname : markupName { text, markup := some n.name, strict, check } s = n.name := by
    cases n <;> rfl
  rw [hname, Notation.request_name]

theorem options_eq (n : Notation) (strict check : Option Bool) (s : Settings) (text : String) :
    options { text, markup := some n.name, strict, check } s =
      .ok { markup := n, strict := strict.getD s.strict, check := check.getD s.check } := by
  rw [options, request_markupName]
  rfl

theorem run_of_markup {r : Request} {s : Settings} {n : Notation}
    (h : Notation.request (r.markupName s) = .ok n) (adjust : Options → Options) :
    r.run s adjust =
      (derive (adjust { markup := n, strict := r.strict.getD s.strict, check := r.check.getD s.check })
        r.text).mapError .unwritable := by
  rw [run, options, h]
  rfl

theorem run_eq (n : Notation) (strict check : Option Bool) (s : Settings) (text : String)
    (adjust : Options → Options) : run { text, markup := some n.name, strict, check } s adjust =
      (derive (adjust { markup := n, strict := strict.getD s.strict, check := check.getD s.check })
        text).mapError .unwritable :=
  run_of_markup (request_markupName n strict check s text) adjust

/-- A text that spells a formula is converted to the end in either notation, and whether the checks
are made cannot be told from the result: every form is as its check wants it. -/
theorem conversion_completes (s : Settings) (n : Notation) (strict : Option Bool)
    (threshold : Nat) (text : String) (f : Formula)
    (h : Formula.parse (strict.getD s.strict) text = .ok f) :
    ∃ d log,
      (∀ check, run { text, markup := some n.name, strict, check } s ({ · with threshold }) =
        .ok (d, log)) ∧
      d.ok = true ∧
      d.steps.map (·.key) = ["original", "no_implications", "nnf", "renamed", "prenex", "skolem",
        "cnf", "clauses", "horn", "horn_summary", "dnf"] ∧
      d.errorStep? = none ∧
      d.clauses ≠ [] ∧ (∀ c ∈ d.clauses, c.literals ≠ []) ∧
      ∃ F names, f.forms.run.run (Names.ofFormula f) = (.ok F, names) ∧
        (∀ stage, ({} : Checks).run f.symbols stage (F.form stage) = []) ∧
        Clause.entries n 1 F.clauses = .ok d.clauses ∧
        ∃ g, F.skolem.disjunctive = .ok g ∧ ({} : Checks).disjunctive g = [] := by
  have hf := Formula.isPlain_of_parse h
  have hwf := hf.wellFormed
  have hmatrix := Formula.skolem_plainForms hwf
  have hclauses (c : Clause) (hc : c ∈ f.plainForms.clauses) : Clause.WellFormed c :=
    Formula.atom_wellFormed_of_mem_clauses hwf hc
  let skips := (Formula.parseWithSkips (strict.getD s.strict) text).2
  have hparsed : Formula.parseWithSkips (strict.getD s.strict) text = (.ok f, skips) :=
    Prod.ext h rfl
  let p := (Progress.start n text).completed { markup := n, threshold } skips f
  have hrun (check : Option Bool) :
      run { text, markup := some n.name, strict, check } s ({ · with threshold }) =
        .ok (p.record.withReport, p.log) := by
    let o : Options :=
      { markup := n, strict := strict.getD s.strict, check := check.getD s.check, threshold }
    have hderive : derive o text = .ok (p.record.withReport, p.log) :=
      derive_eq (o := o) rfl rfl hparsed hf
    rw [run, options_eq]
    exact congrArg (Except.mapError RequestError.unwritable) hderive
  exact ⟨p.record.withReport, p.log, hrun, rfl, rfl, rfl,
    Clause.entriesFrom_ne_nil n 1 (Formula.clauses_ne_nil hwf),
    fun c hc => Clause.literals_ne_nil_of_mem_entriesFrom n
      (fun _ => Formula.ne_nil_of_mem_clauses) hc,
    f.plainForms, f.skolemForm.2, Formula.forms_eq hwf, Formula.check_form hf,
    Clause.entries_eq n 1 hclauses, _, Formula.disjunctive_eq hmatrix,
    Formula.check_disjunctive hwf⟩

theorem conversion_completes_of_nested_quantifiers :
    let text := "∀x. (P(x) → ∃y. Q(x, y))"
    let f : Formula := .all "x" (.implies (.atom ⟨"P", [.var "x"]⟩)
      (.ex "y" (.atom ⟨"Q", [.var "x", .var "y"]⟩)))
    Formula.parse false text = .ok f ∧
      ∃ d log,
        (∀ check, run { text, markup := some "latex", check } {} ({ · with threshold := 30 }) =
          .ok (d, log)) ∧
        d.ok = true ∧ d.clauses ≠ [] := by
  intro text f
  have hf : f.IsPlain := by
    simp [f, Formula.IsPlain, Atom.IsPlain]
    decide
  have hwriting : f.writing .text = text := by rfl
  have hparse : Formula.parse false text = .ok f := hwriting ▸ Formula.parse_writing hf false
  obtain ⟨d, log, hrun, hok, -, -, hclauses, -⟩ :=
    conversion_completes {} .latex none 30 text f hparse
  exact ⟨hparse, d, log, hrun, hok, hclauses⟩

end Request

end Clausification
