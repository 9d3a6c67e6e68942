import Clausification.Proofs.Derivation.Run

/-!
# How far a derivation gets

Passes may stop where they should not, checks may object to anything, and the extraction may deliver
other clauses. Whatever happens, the record of a derivation is that of the whole one as far as some
step: every part either adds its steps or stops and leaves the record alone.
-/

namespace Clausification

/-- Each pass has its own result or stops; the extraction may also have other clauses. -/
structure Passes.Faulty (passes : Passes) : Prop where
  stage : ∀ stage f names,
    (passes.run stage f).run.run names = (({} : Passes).run stage f).run.run names ∨
      ∃ o after, (passes.run stage f).run.run names = (.error o, after)
  clauses : ∀ f, passes.clauses f = f.clauses ∨ (∃ o, passes.clauses f = .error o) ∨
    ∃ cs, passes.clauses f = .ok cs ∧ ∀ c ∈ cs, Clause.WellFormed c
  disjunctive : ∀ f, passes.disjunctive f = f.disjunctive ∨ ∃ o, passes.disjunctive f = .error o

/-- The clauses that the extraction has, or, where it stops, should have. -/
def Passes.extracted (passes : Passes) (f : Formula) : List Clause :=
  match passes.clauses f, f.clauses with
  | .ok cs, _ | .error _, .ok cs => cs
  | .error _, .error _ => []

def Options.disjunctive (o : Options) (f : Formula) : Except Obstacle Formula := do
  let g ← o.passes.disjunctive f
  if o.check then verified (o.checks.disjunctive g) g else return g

/-- The part of a derivation that makes the step with a key stops. -/
inductive Options.StopsAt (o : Options) (f : Formula) : String → Obstacle → Prop
  | stage (stage : Stage) (after : Names) (e : Obstacle)
      (h : (runStage o.passes o.checks o.check f.symbols stage (f.formBefore stage)).run.run
        (f.namesBefore stage) = (.error e, after)) : StopsAt o f stage.key e
  | clauses (e : Obstacle) (h : o.passes.clauses f.plainForms.conjunctive = .error e) :
      StopsAt o f "clauses" e
  | disjunctive (e : Obstacle) (h : o.disjunctive f.plainForms.skolem = .error e) :
      StopsAt o f "dnf" e

structure Options.RunsThrough (o : Options) (f : Formula) : Prop where
  stage : ∀ stage, ∃ g after,
    (runStage o.passes o.checks o.check f.symbols stage (f.formBefore stage)).run.run
      (f.namesBefore stage) = (.ok g, after)
  clauses : ∃ cs, o.passes.clauses f.plainForms.conjunctive = .ok cs
  disjunctive : ∃ g, o.disjunctive f.plainForms.skolem = .ok g

theorem Options.RunsThrough.not_stopsAt {o : Options} {f : Formula} (h : o.RunsThrough f)
    (key : String) (e : Obstacle) : ¬ o.StopsAt f key e := by
  intro hstop
  cases hstop with
  | stage stage after e he =>
    obtain ⟨g, after', hok⟩ := h.stage stage
    exact nomatch he.symm.trans hok
  | clauses e he =>
    obtain ⟨cs, hok⟩ := h.clauses
    exact nomatch he.symm.trans hok
  | disjunctive e he =>
    obtain ⟨g, hok⟩ := h.disjunctive
    exact nomatch he.symm.trans hok

theorem Passes.extracted_eq {passes : Passes} {f : Formula} {cs : List Clause}
    (h : passes.clauses f = .ok cs) : passes.extracted f = cs := by
  rw [extracted, h]

theorem Passes.Faulty.wellFormed_of_clauses_eq {passes : Passes} (hpasses : passes.Faulty)
    {f : Formula} (hf : f.wellFormed) {cs : List Clause}
    (h : passes.clauses f.plainForms.conjunctive = .ok cs) : ∀ c ∈ cs, Clause.WellFormed c := by
  rcases hpasses.clauses f.plainForms.conjunctive with hpass | ⟨e, hpass⟩ | ⟨cs', hpass, hcs'⟩
  · rw [hpass, Formula.stage_clauses hf] at h
    cases h
    exact fun c hc => Formula.atom_wellFormed_of_mem_clauses hf hc
  · rw [hpass] at h
    cases h
  · rw [hpass] at h
    cases h
    exact hcs'

def Formula.stageStep (n : Notation) (f : Formula) (stage : Stage) : Step :=
  { key := stage.key, label := stage.label, text := (f.plainForms.form stage).writing n }

def Clause.steps (n : Notation) (cs : List Clause) : List Step :=
  { key := "clauses", label := "Clausal form (set of clauses)", text := Clause.writingAll n cs } ::
    if cs.isEmpty then
      [{ key := "horn", label := "Horn clause analysis", text := n.prose "no clauses found" }]
    else
      let kinds := cs.map (·.kind)
      [{ key := "horn", label := "Horn clause analysis",
         text := Text.join n.signs.betweenLines (Clause.rowsFrom n 1 cs (kinds.map (·.name))) },
       { key := "horn_summary", label := "Horn summary",
         text := n.prose (hornVerdict (allHorn kinds)) }]

def Formula.stageSteps (n : Notation) (f : Formula) : List Step :=
  { key := "original", label := "Original formula", text := f.writing n } ::
    Stage.all.map (f.stageStep n)

/-- The steps of a derivation that runs through, with given clauses. -/
def Formula.steps (n : Notation) (f : Formula) (cs : List Clause) : List Step :=
  f.stageSteps n ++ Clause.steps n cs ++
    [{ key := "dnf", label := "DNF: disjunctive normal form (comparison)",
       text := (f.plainForms.skolem.distributed .or).writing n }]

def stepsBeforeClauses : Nat := 7

namespace Formula
variable (n : Notation) (f : Formula) (cs : List Clause)

theorem take_steps_stepsBeforeClauses :
    (f.steps n cs).take stepsBeforeClauses = f.stageSteps n := rfl

theorem take_steps_length_sub_one :
    (f.steps n cs).take ((f.steps n cs).length - 1) = f.stageSteps n ++ Clause.steps n cs := by
  rw [← List.dropLast_eq_take, steps, List.dropLast_concat]

theorem getElem?_steps_length_sub_one :
    (f.steps n cs)[(f.steps n cs).length - 1]?.map (·.key) = some "dnf" := by
  rw [steps, List.length_append, List.length_singleton, Nat.add_sub_cancel,
    List.getElem?_concat_length]
  rfl

theorem stepsBeforeClauses_lt_length : stepsBeforeClauses < (f.steps n cs).length - 1 := by
  simp only [stepsBeforeClauses, steps, stageSteps, Clause.steps, Stage.all, List.length_append,
    List.length_cons, List.map_cons, List.map_nil, List.length_nil]
  omega

end Formula

namespace Derivation

def start (n : Notation) (text : String) (skips : List Unrecognized) : Derivation where
  version := Clausification.version
  source := text
  markup := n
  warnings := skips.map (·.warning)

def withClauses (n : Notation) (cs : List Clause) (d : Derivation) : Derivation :=
  { d with
    clauses := Clause.entriesFrom n 1 cs
    allHorn := if cs.isEmpty then none else some (Clausification.allHorn (cs.map (·.kind)))
    tptp := Tptp.lines "c" cs }

/-- A record with the first steps, and with the results once the clauses are among them. -/
def upTo (n : Notation) (f : Formula) (cs : List Clause) (k : Nat) (d : Derivation) : Derivation :=
  { if stepsBeforeClauses < k then d.withClauses n cs else d with steps := (f.steps n cs).take k }

/-- A record that ends where some part of the derivation stops. -/
def StoppedIn (o : Options) (f : Formula) (cs : List Clause) (base : Derivation) (e : Obstacle)
    (d : Derivation) : Prop :=
  ∃ k key, (f.steps o.markup cs)[k]?.map (·.key) = some key ∧ o.StopsAt f key e ∧
    d = base.upTo o.markup f cs k

section
variable {n : Notation} {f : Formula} {cs : List Clause} {k : Nat} (d : Derivation)

theorem withClauses_nil (hclauses : d.clauses = []) (hhorn : d.allHorn = none) :
    d.withClauses n [] = { d with tptp := [] } := by
  cases d
  obtain rfl : _ = [] := hclauses
  obtain rfl : _ = none := hhorn
  rfl

theorem upTo_of_le (hk : k ≤ stepsBeforeClauses) :
    d.upTo n f cs k = { d with steps := (f.steps n cs).take k } := by
  rw [upTo, if_neg (Nat.not_lt.mpr hk)]

theorem upTo_of_lt (hk : stepsBeforeClauses < k) :
    d.upTo n f cs k = { d.withClauses n cs with steps := (f.steps n cs).take k } := by
  rw [upTo, if_pos hk]

theorem upTo_succ_of_lt (hk : k < stepsBeforeClauses) {step : Step}
    (hstep : (f.steps n cs)[k]? = some step) : d.upTo n f cs (k + 1) =
      { d.upTo n f cs k with steps := (d.upTo n f cs k).steps ++ [step] } := by
  rw [upTo_of_le d (Nat.succ_le_of_lt hk), upTo_of_le d (Nat.le_of_lt hk), List.take_add_one, hstep]
  rfl

end

end Derivation

namespace Deriving

/-- A part of a derivation goes on to what `Q` says, or fails at an obstacle with a record as `S`
says. -/
def Leads {α : Type} (x : Deriving α) (p : Progress) (Q : α → Progress → Prop)
    (S : Obstacle → Derivation → Prop) : Prop :=
  (∃ a q, x.run.run p = (.ok a, q) ∧ Q a q) ∨
    ∃ e q, x.run.run p = (.error (.failed .transforming (.obstructed e)), q) ∧ S e q.record

section
variable {α β : Type} {x : Deriving α} {k : α → Deriving β} {p : Progress}
  {Q : α → Progress → Prop} {R : β → Progress → Prop} {S : Obstacle → Derivation → Prop}

theorem Leads.bind (hx : Leads x p Q S) (hk : ∀ a q, Q a q → Leads (k a) q R S) :
    Leads (x >>= k) p R S := by
  rcases hx with ⟨a, q, hrun, hq⟩ | ⟨e, q, hrun, hq⟩
  · have hgo := hk a q hq
    rwa [Leads, ← run_bind hrun] at hgo
  · exact Or.inr ⟨e, q, run_bind_error hrun, hq⟩

theorem Leads.imp {Q' : α → Progress → Prop} (hx : Leads x p Q S) (h : ∀ a q, Q a q → Q' a q) :
    Leads x p Q' S :=
  hx.imp_left fun ⟨a, q, hrun, hq⟩ => ⟨a, q, hrun, h a q hq⟩

theorem Leads.of_run {a : α} {q : Progress} (hrun : x.run.run p = (.ok a, q))
    (hk : Leads (k a) q R S) : Leads (x >>= k) p R S := by
  rwa [Leads, ← run_bind hrun] at hk

theorem leads_orFail {y : Except Obstacle α} (hok : ∀ a, y = .ok a → Q a p)
    (herror : ∀ e, y = .error e → S e p.record) :
    Leads (orFail .transforming (y.mapError .obstructed)) p Q S := by
  cases y with
  | ok a => exact Or.inl ⟨a, p, rfl, hok a rfl⟩
  | error e => exact Or.inr ⟨e, p, rfl, herror e rfl⟩

end

section
variable {o : Options} (hpasses : o.passes.Faulty) {f : Formula} (hf : f.wellFormed)
  {cs : List Clause} {base : Derivation} {p : Progress} {k : Nat}

include hpasses hf in
theorem runStage_faulty (stage : Stage) :
    (runStage o.passes o.checks o.check f.symbols stage (f.formBefore stage)).run.run
        (f.namesBefore stage) = (.ok (f.plainForms.form stage), f.namesBehind stage) ∨
      ∃ e after, (runStage o.passes o.checks o.check f.symbols stage (f.formBefore stage)).run.run
        (f.namesBefore stage) = (.error e, after) := by
  rcases hpasses.stage stage (f.formBefore stage) (f.namesBefore stage) with hpass | ⟨e, after, hpass⟩
  · rw [Formula.run_pass hf] at hpass
    rw [runStage, run_bind hpass]
    cases o.check with
    | false => exact Or.inl rfl
    | true =>
      cases hissues : o.checks.run f.symbols stage (f.plainForms.form stage) with
      | nil => exact Or.inl rfl
      | cons issue issues => exact Or.inr ⟨.violation issue, _, rfl⟩
  · exact Or.inr ⟨e, after, run_bind_error hpass⟩

include hpasses hf in
theorem leads_advance (stage : Stage)
    (hk : (f.steps o.markup cs)[k]? = some (f.stageStep o.markup stage))
    (hbefore : k < stepsBeforeClauses) (hp : p.record = base.upTo o.markup f cs k)
    (hnames : p.names = f.namesBefore stage) :
    Leads (advance o f.symbols stage (f.formBefore stage)) p
      (fun g q => (∃ g after, (runStage o.passes o.checks o.check f.symbols stage
          (f.formBefore stage)).run.run (f.namesBefore stage) = (.ok g, after)) ∧
        g = f.plainForms.form stage ∧ q.names = f.namesBehind stage ∧
        q.record = base.upTo o.markup f cs (k + 1))
      (Derivation.StoppedIn o f cs base) := by
  rcases runStage_faulty hpasses hf stage with hstage | ⟨e, after, hstage⟩
  · have hrun := run_advance_of_runStage (o := o) hf stage (hnames ▸ hstage)
    refine Or.inl ⟨_, _, hrun, ⟨_, _, hstage⟩, rfl, rfl, ?_⟩
    rw [Derivation.upTo_succ_of_lt base hbefore hk, ← hp]
    rfl
  · have hstops : o.StopsAt f stage.key e := .stage stage after e hstage
    rw [← hnames] at hstage
    have hrun : (advance o f.symbols stage (f.formBefore stage)).run.run p =
        (.error (.failed .transforming (.obstructed e)), { p with names := after }) := by
      rw [advance, run_bind (run_drawing hstage)]
      rfl
    exact Or.inr ⟨e, _, hrun, k, stage.key, by rw [hk]; rfl, hstops, hp⟩

theorem run_conclude_eq (hcs : ∀ c ∈ cs, Clause.WellFormed c) (hclauses : p.record.clauses = [])
    (hhorn : p.record.allHorn = none) :
    ∃ q, (conclude o cs).run.run p = (.ok (), q) ∧ q.names = p.names ∧
      q.record = { p.record.withClauses o.markup cs with
        steps := p.record.steps ++ Clause.steps o.markup cs } := by
  by_cases hempty : cs.isEmpty
  · obtain rfl := List.isEmpty_iff.mp hempty
    refine ⟨_, rfl, rfl, ?_⟩
    -- without clauses the run leaves their fields alone, where `withClauses` empties them
    have hsteps : p.record.steps ++ Clause.steps o.markup [] =
        p.record.steps ++ [_] ++ [_] := (List.append_assoc _ [_] [_]).symm
    rw [Derivation.withClauses_nil p.record hclauses hhorn, hsteps]
    rfl
  · refine ⟨_, run_conclude (by simpa using hempty) hcs, rfl, ?_⟩
    rw [Derivation.withClauses, Clause.steps, if_neg hempty, if_neg hempty]
    simp [Progress.concluded, Progress.step]

theorem leads_conclude (hcs : ∀ c ∈ cs, Clause.WellFormed c) (hclauses : base.clauses = [])
    (hhorn : base.allHorn = none) (hp : p.record = base.upTo o.markup f cs stepsBeforeClauses)
    (S : Obstacle → Derivation → Prop) :
    Leads (conclude o cs) p
      (fun _ q => q.record = base.upTo o.markup f cs ((f.steps o.markup cs).length - 1)) S := by
  rw [Derivation.upTo_of_le base (Nat.le_refl _)] at hp
  obtain ⟨q, hrun, -, hq⟩ := run_conclude_eq (o := o) (p := p) hcs (by rw [hp, hclauses])
    (by rw [hp, hhorn])
  refine Or.inl ⟨(), q, hrun, hq.trans ?_⟩
  rw [hp, Derivation.upTo_of_lt base (f.stepsBeforeClauses_lt_length o.markup cs),
    Formula.take_steps_length_sub_one, Formula.take_steps_stepsBeforeClauses]
  rfl

include hpasses hf in
theorem disjunctive_faulty : o.disjunctive f.plainForms.skolem =
      .ok (f.plainForms.skolem.distributed .or) ∨
    ∃ e, o.disjunctive f.plainForms.skolem = .error e := by
  rw [Options.disjunctive]
  rcases hpasses.disjunctive f.plainForms.skolem with hpass | ⟨e, hpass⟩
  · rw [hpass, Formula.disjunctive_eq (Formula.skolem_plainForms hf)]
    cases o.check with
    | false => exact Or.inl rfl
    | true =>
      have hverified (issues : List Issue) (g : Formula) :
          verified issues g = .ok g ∨ ∃ e, verified issues g = .error e := by
        cases issues with
        | nil => exact Or.inl rfl
        | cons issue issues => exact Or.inr ⟨.violation issue, rfl⟩
      exact hverified (o.checks.disjunctive _) _
  · rw [hpass]
    exact Or.inr ⟨e, rfl⟩

include hpasses hf in
theorem leads_compare
    (hp : p.record = base.upTo o.markup f cs ((f.steps o.markup cs).length - 1)) :
    Leads (compare o f.plainForms.skolem) p
      (fun _ q => (∃ g, o.disjunctive f.plainForms.skolem = .ok g) ∧
        q.record = base.upTo o.markup f cs (f.steps o.markup cs).length)
      (Derivation.StoppedIn o f cs base) := by
  have hlt := f.stepsBeforeClauses_lt_length o.markup cs
  have hwf := Formula.wellFormed_distributed (Or.inr rfl) (Formula.skolem_plainForms hf)
    (Formula.wellFormed_skolem hf)
  refine Leads.bind
    (Q := fun g q => o.disjunctive f.plainForms.skolem = .ok g ∧
      g = f.plainForms.skolem.distributed .or ∧ q = p)
    (leads_orFail (fun g hg => ⟨hg, ?_, rfl⟩) fun e he => ?_) ?_
  · rcases disjunctive_faulty hpasses hf with hpass | ⟨e, hpass⟩
    · exact Except.ok.inj (hg.symm.trans hpass)
    · exact nomatch hg.symm.trans hpass
  · exact ⟨_, _, f.getElem?_steps_length_sub_one o.markup cs, .disjunctive e he, hp⟩
  · rintro _ _ ⟨hg, rfl, rfl⟩
    refine Leads.of_run (run_written (Formula.render_eq _ hwf))
      (Or.inl ⟨(), _, run_addStep .., ⟨_, hg⟩, ?_⟩)
    rw [Progress.step, hp, Derivation.upTo_of_lt base hlt, Derivation.upTo_of_lt base (by omega),
      Formula.take_steps_length_sub_one, List.take_length]
    rfl

include hpasses in
/-- A derivation from a text that spells a formula gets to the end, or as far as the part that
stops. -/
theorem leads_all {text : String} {skips : List Unrecognized}
    (h : Formula.parseWithSkips o.strict text = (.ok f, skips)) (hf : f.IsPlain)
    (hcs : cs = o.passes.extracted f.plainForms.conjunctive) :
    Leads (all o text) (Progress.start o.markup text)
      (fun _ q => o.RunsThrough f ∧ q.record =
        (Derivation.start o.markup text skips).upTo o.markup f cs (f.steps o.markup cs).length)
      (Derivation.StoppedIn o f cs (Derivation.start o.markup text skips)) := by
  have hwf := hf.wellFormed
  rw [all]
  -- the names and the record behind a stage are what the next one needs, and that it has run through
  -- is kept for the end
  refine Leads.of_run (run_read h) (Leads.of_run (run_modify _)
    (Leads.of_run (run_written (Formula.render_eq _ hwf)) (Leads.of_run (run_addStep ..) ?_)))
  refine Leads.bind (leads_advance (k := 1) hpasses hwf .implicationFree rfl (by decide) rfl rfl) ?_
  rintro _ q₁ ⟨h₁, rfl, hnames, hp⟩
  refine Leads.bind (leads_advance hpasses hwf .negationNormal rfl (by decide) hp hnames) ?_
  rintro _ q₂ ⟨h₂, rfl, hnames, hp⟩
  refine Leads.bind (leads_advance hpasses hwf .renamed rfl (by decide) hp hnames) ?_
  rintro _ q₃ ⟨h₃, rfl, hnames, hp⟩
  refine Leads.bind (leads_advance hpasses hwf .prenex rfl (by decide) hp hnames) ?_
  rintro _ q₄ ⟨h₄, rfl, hnames, hp⟩
  refine Leads.bind (leads_advance hpasses hwf .skolem rfl (by decide) hp hnames) ?_
  rintro _ q₅ ⟨h₅, rfl, hnames, hp⟩
  refine Leads.bind (leads_advance hpasses hwf .conjunctive rfl (by decide) hp hnames) ?_
  rintro _ q₆ ⟨h₆, rfl, -, hp⟩
  refine Leads.bind
    (Q := fun cs' q => o.passes.clauses f.plainForms.conjunctive = .ok cs' ∧ cs' = cs ∧ q = q₆)
    (leads_orFail (fun cs' hcs' => ⟨hcs', ?_, rfl⟩) fun e he => ?_) ?_
  · exact (hcs.trans (Passes.extracted_eq hcs')).symm
  · exact ⟨stepsBeforeClauses, "clauses", rfl, .clauses e he, hp⟩
  · rintro _ _ ⟨hok, rfl, rfl⟩
    have hcs' := hpasses.wellFormed_of_clauses_eq hwf hok
    refine Leads.bind (leads_conclude hcs' rfl rfl hp _) fun _ _ hp => ?_
    refine (leads_compare hpasses hwf hp).imp ?_
    rintro _ _ ⟨hdisjunctive, hp⟩
    have hstages (stage : Stage) : ∃ g after,
        (runStage o.passes o.checks o.check f.symbols stage (f.formBefore stage)).run.run
          (f.namesBefore stage) = (.ok g, after) := by
      cases stage <;> assumption
    exact ⟨⟨hstages, ⟨_, hok⟩, hdisjunctive⟩, hp⟩

end

end Deriving

end Clausification
