import Clausification.Proofs.Derivation.Record

/-!
# What stays of a derivation that fails

A derivation fails in one place, with one step for the error, and its record is otherwise that of the
whole derivation as far as it got. This holds for every text and every pattern of faults, so the parts
of a record never contradict each other.
-/

namespace Clausification

/-- The keys of the steps in their order. Without clauses there is no verdict about them. -/
def orderedKeys (cs : List Clause) : List String :=
  ["original", "no_implications", "nnf", "renamed", "prenex", "skolem", "cnf", "clauses", "horn"] ++
    (if cs.isEmpty then [] else ["horn_summary"]) ++ ["dnf"]

theorem Formula.map_key_steps (n : Notation) (f : Formula) (cs : List Clause) :
    (f.steps n cs).map (·.key) = orderedKeys cs := by
  rw [steps, Clause.steps, orderedKeys]
  split <;> rfl

theorem Formula.failed_of_mem_steps {n : Notation} {f : Formula} {cs : List Clause} {step : Step}
    (hstep : step ∈ f.steps n cs) : step.failed = false := by
  have hall : (f.steps n cs).all (!·.failed) := by
    rw [steps, Clause.steps]
    split <;> rfl
  simpa using List.all_eq_true.mp hall step hstep

theorem mem_take_orderedKeys_iff {cs : List Clause} {k : Nat} :
    "clauses" ∈ (orderedKeys cs).take k ↔ stepsBeforeClauses < k := by
  constructor
  · intro hmem
    by_contra hle
    have hmem : "clauses" ∈ (orderedKeys cs).take stepsBeforeClauses :=
      List.take_subset_take_left _ (Nat.not_lt.mp hle) hmem
    exact absurd hmem (by decide : "clauses" ∉ ["original", "no_implications", "nnf", "renamed",
      "prenex", "skolem", "cnf"])
  · intro hlt
    have hmem : "clauses" ∈ (orderedKeys cs).take (stepsBeforeClauses + 1) :=
      (by decide : "clauses" ∈ ["original", "no_implications", "nnf", "renamed", "prenex", "skolem",
        "cnf", "clauses"])
    exact List.take_subset_take_left _ hlt hmem

def Failure.step (n : Notation) (place : FailedAt) (e : Failure) : Step :=
  { key := "error", label := place.label, text := n.prose e.message, failed := true }

namespace Derivation

/-- The steps that do not show an error. -/
def kept (d : Derivation) : List Step := d.steps.filter (!·.failed)

def HasResults (n : Notation) (cs : List Clause) (d : Derivation) : Prop :=
  Clause.entries n 1 cs = .ok d.clauses ∧
    d.allHorn = (if cs.isEmpty then none else some (Clausification.allHorn (cs.map (·.kind)))) ∧
    d.tptp = Tptp.lines "c" cs

def HasNoResults (d : Derivation) : Prop := d.clauses = [] ∧ d.allHorn = none ∧ d.tptp = []

/-- The parts of a record agree with each other, whether the derivation has failed or not. -/
structure Coherent (n : Notation) (cs : List Clause) (d : Derivation) : Prop where
  ok_eq_false_iff : d.ok = false ↔ ∃ step ∈ d.steps, step.failed
  failed_only_last : ∀ step ∈ d.steps.dropLast, step.failed = false
  failed_key : ∀ step ∈ d.steps, step.failed → step.key = "error"
  keys_prefix : d.kept.map (·.key) <+: orderedKeys cs
  keys_eq_iff : d.kept.map (·.key) = orderedKeys cs ↔ d.ok = true
  results : "clauses" ∈ d.kept.map (·.key) → d.HasResults n cs
  no_results : "clauses" ∉ d.kept.map (·.key) → d.HasNoResults

/-- The error of a failed derivation is that of the part which would have made the next step. -/
def FailedIn (o : Options) (f : Formula) (cs : List Clause) (d : Derivation) : Prop :=
  ∃ key e, o.StopsAt f key e ∧ d.kept.map (·.key) ++ [key] <+: orderedKeys cs ∧
    d.steps = d.kept ++ [Failure.step d.markup .transforming (.obstructed e)]

section
variable {n : Notation} {cs : List Clause} {o : Options} {f : Formula} {d : Derivation}

-- Records are compared with the report left open: with the real one, the documents would be computed.
theorem withReport_of_forall {P : Derivation → Prop} (h : ∀ r, P { d with report := r }) :
    P d.withReport := h d.markdown

theorem Coherent.withReport (h : d.Coherent n cs) : d.withReport.Coherent n cs :=
  withReport_of_forall fun _ => ⟨h.ok_eq_false_iff, h.failed_only_last, h.failed_key, h.keys_prefix,
    h.keys_eq_iff, h.results, h.no_results⟩

theorem FailedIn.withReport (h : d.FailedIn o f cs) : d.withReport.FailedIn o f cs :=
  withReport_of_forall fun _ => h

theorem ok_withReport (d : Derivation) : d.withReport.ok = d.ok :=
  withReport_of_forall (P := fun d' => d'.ok = d.ok) fun _ => rfl

theorem kept_withReport (d : Derivation) : d.withReport.kept = d.kept :=
  withReport_of_forall (P := fun d' => d'.kept = d.kept) fun _ => rfl

theorem warnings_withReport (d : Derivation) : d.withReport.warnings = d.warnings :=
  withReport_of_forall (P := fun d' => d'.warnings = d.warnings) fun _ => rfl

theorem report_withReport (d : Derivation) : d.withReport.report = d.withReport.markdown := by
  have hmarkdown : d.withReport.markdown = d.markdown :=
    withReport_of_forall (P := fun d' => d'.markdown = d.markdown) fun _ => rfl
  rw [hmarkdown, Derivation.withReport]

end

/-- A record before the derivation has failed or has come to its end. -/
structure Unfailed (n : Notation) (cs : List Clause) (d : Derivation) : Prop where
  ok : d.ok = true
  failed : ∀ step ∈ d.steps, step.failed = false
  keys_prefix : d.steps.map (·.key) <+: orderedKeys cs
  results : "clauses" ∈ d.steps.map (·.key) → d.HasResults n cs
  no_results : "clauses" ∉ d.steps.map (·.key) → d.HasNoResults

namespace Unfailed
variable {n : Notation} {cs : List Clause} {d : Derivation}

theorem start (n : Notation) (cs : List Clause) (text : String) (skips : List Unrecognized) :
    (Derivation.start n text skips).Unfailed n cs where
  ok := rfl
  failed _ hstep := nomatch hstep
  keys_prefix := List.nil_prefix
  results hmem := nomatch hmem
  no_results _ := ⟨rfl, rfl, rfl⟩

theorem kept_eq (h : d.Unfailed n cs) : d.kept = d.steps :=
  List.filter_eq_self.mpr fun step hstep => by simp [h.failed step hstep]

theorem kept_fail (h : d.Unfailed n cs) (place : FailedAt) (e : Failure) :
    (d.fail place e).kept = d.steps := by
  rw [← h.kept_eq, kept, kept, fail, List.filter_append]
  exact List.append_nil _

theorem not_failed (h : d.Unfailed n cs) {step : Step} (hstep : step ∈ d.steps) :
    ¬ step.failed := by
  simp [h.failed step hstep]

theorem coherent (h : d.Unfailed n cs) (hall : d.steps.map (·.key) = orderedKeys cs) :
    d.Coherent n cs where
  ok_eq_false_iff := by
    refine ⟨fun hfalse => ?_, fun ⟨step, hstep, hfailed⟩ => absurd hfailed (h.not_failed hstep)⟩
    exact absurd (h.ok.symm.trans hfalse) (by decide)
  failed_only_last _ hstep := h.failed _ (List.dropLast_subset _ hstep)
  failed_key _ hstep hfailed := absurd hfailed (h.not_failed hstep)
  keys_prefix := h.kept_eq ▸ h.keys_prefix
  keys_eq_iff := ⟨fun _ => h.ok, fun _ => h.kept_eq ▸ hall⟩
  results := h.kept_eq ▸ h.results
  no_results := h.kept_eq ▸ h.no_results

theorem coherent_fail (h : d.Unfailed n cs) {key : String}
    (hnext : d.steps.map (·.key) ++ [key] <+: orderedKeys cs) (place : FailedAt) (e : Failure) :
    (d.fail place e).Coherent n cs where
  ok_eq_false_iff :=
    ⟨fun _ => ⟨_, List.mem_append_right _ (List.mem_singleton_self _), rfl⟩, fun _ => rfl⟩
  failed_only_last := by
    rw [fail, List.dropLast_concat]
    exact h.failed
  failed_key step hstep hfailed := by
    rcases List.mem_append.mp hstep with hstep | hstep
    · exact absurd hfailed (h.not_failed hstep)
    · rw [List.mem_singleton.mp hstep]
  keys_prefix := h.kept_fail place e ▸ h.keys_prefix
  keys_eq_iff := by
    rw [h.kept_fail place e]
    refine ⟨fun hall => ?_, fun hok => nomatch hok⟩
    have hlength := hnext.length_le
    rw [hall, List.length_append, List.length_singleton] at hlength
    exact absurd hlength (Nat.not_succ_le_self _)
  results := h.kept_fail place e ▸ h.results
  no_results := h.kept_fail place e ▸ h.no_results

end Unfailed

theorem upTo_ok (n : Notation) (f : Formula) (cs : List Clause) (k : Nat) (d : Derivation) :
    (d.upTo n f cs k).ok = d.ok := by
  rw [upTo]
  split <;> rfl

theorem upTo_warnings (n : Notation) (f : Formula) (cs : List Clause) (k : Nat) (d : Derivation) :
    (d.upTo n f cs k).warnings = d.warnings := by
  rw [upTo]
  split <;> rfl

theorem map_key_steps_upTo (n : Notation) (f : Formula) (cs : List Clause) (k : Nat)
    (d : Derivation) : (d.upTo n f cs k).steps.map (·.key) = (orderedKeys cs).take k := by
  rw [← f.map_key_steps n, ← List.map_take]
  rfl

theorem next_key_upTo {n : Notation} {f : Formula} {cs : List Clause} {k : Nat} {key : String}
    (hk : (f.steps n cs)[k]?.map (·.key) = some key) (d : Derivation) :
    (d.upTo n f cs k).steps.map (·.key) ++ [key] <+: orderedKeys cs := by
  have hkey : (orderedKeys cs)[k]? = some key := by
    rw [← f.map_key_steps n, List.getElem?_map, hk]
  have htake : (orderedKeys cs).take (k + 1) = (orderedKeys cs).take k ++ [key] := by
    rw [List.take_add_one, hkey]
    rfl
  rw [map_key_steps_upTo, ← htake]
  exact List.take_prefix _ _

theorem unfailed_upTo (n : Notation) (f : Formula) {cs : List Clause}
    (hcs : ∀ c ∈ cs, Clause.WellFormed c) (text : String) (skips : List Unrecognized) (k : Nat) :
    ((start n text skips).upTo n f cs k).Unfailed n cs := by
  have hkeys := map_key_steps_upTo n f cs k (start n text skips)
  refine
    { ok := upTo_ok n f cs k _
      failed := fun step hstep => Formula.failed_of_mem_steps (List.mem_of_mem_take hstep)
      keys_prefix := hkeys ▸ List.take_prefix k _
      results := fun hmem => ?_
      no_results := fun hmem => ?_ }
  · rw [hkeys, mem_take_orderedKeys_iff] at hmem
    rw [upTo_of_lt _ hmem]
    exact ⟨Clause.entries_eq n 1 hcs, rfl, rfl⟩
  · rw [hkeys, mem_take_orderedKeys_iff] at hmem
    rw [upTo_of_le _ (Nat.not_lt.mp hmem)]
    exact ⟨rfl, rfl, rfl⟩

end Derivation

theorem Passes.Faulty.wellFormed_extracted {passes : Passes} (hpasses : passes.Faulty) {f : Formula}
    (hf : f.wellFormed) : ∀ c ∈ passes.extracted f.plainForms.conjunctive, Clause.WellFormed c := by
  cases hpass : passes.clauses f.plainForms.conjunctive with
  | ok cs =>
    rw [extracted_eq hpass]
    exact hpasses.wellFormed_of_clauses_eq hf hpass
  | error e =>
    rw [extracted, hpass, Formula.stage_clauses hf]
    exact fun c hc => Formula.atom_wellFormed_of_mem_clauses hf hc

theorem Passes.extracted_of_raising {passes : Passes} {f : Formula} (hf : f.wellFormed)
    (hclauses : ∀ g, passes.clauses g = g.clauses ∨ ∃ e, passes.clauses g = .error e) :
    passes.extracted f.plainForms.conjunctive = f.plainForms.clauses := by
  rcases hclauses f.plainForms.conjunctive with hpass | ⟨e, hpass⟩
  · exact extracted_eq (hpass.trans (Formula.stage_clauses hf))
  · rw [extracted, hpass, Formula.stage_clauses hf]

section
variable {o : Options} {text : String} {skips : List Unrecognized}

theorem derive_of_run_ok {p : Progress}
    (hrun : (Deriving.all o text).run.run (Progress.start o.markup text) = (.ok (), p)) :
    derive o text = .ok (p.record.withReport, p.log) := by
  simp only [derive, Progress.start] at hrun ⊢
  rw [hrun]

theorem derive_of_run_error {p : Progress} {place : FailedAt} {e : Failure}
    (hrun : (Deriving.all o text).run.run (Progress.start o.markup text) =
      (.error (.failed place e), p)) :
    ∃ log, derive o text = .ok ((p.record.fail place e).withReport, log) := by
  simp only [derive, Progress.start] at hrun ⊢
  rw [hrun]
  exact ⟨_, rfl⟩

theorem derive_of_parse_error {e : Failure}
    (h : Formula.parseWithSkips o.strict text = (.error e, skips)) : ∃ log, derive o text =
      .ok (((Derivation.start o.markup text skips).fail .reading e).withReport, log) := by
  have hread : (Deriving.read o text).run.run (Progress.start o.markup text) =
      (.error (.failed .reading e), (Progress.start o.markup text).read o skips) := by
    rw [Deriving.read, h]
    rfl
  exact derive_of_run_error (run_bind_error hread)

variable {f : Formula} (h : Formula.parseWithSkips o.strict text = (.ok f, skips)) (hf : f.IsPlain)

include h hf in
/-- A derivation with faults comes to its end, or fails where some part of it stops. -/
theorem derive_of_faulty (hpasses : o.passes.Faulty) {cs : List Clause}
    (hcs : cs = o.passes.extracted f.plainForms.conjunctive) :
    ∃ (d : Derivation) (log : List Log.Record), derive o text = .ok (d.withReport, log) ∧
      d.Coherent o.markup cs ∧ d.warnings = skips.map (·.warning) ∧
      d.kept <+: f.steps o.markup cs ∧
      (d.ok = false ↔ ∃ key e, o.StopsAt f key e) ∧ (d.ok = false → d.FailedIn o f cs) := by
  have hunfailed (k : Nat) := Derivation.unfailed_upTo o.markup f
    (hcs ▸ hpasses.wellFormed_extracted hf.wellFormed) text skips k
  rcases Deriving.leads_all hpasses h hf hcs with
    ⟨_, q, hrun, hthrough, hq⟩ | ⟨e, q, hrun, k, key, hk, hstop, hq⟩
  · have hrecord := hunfailed (f.steps o.markup cs).length
    have hall := Derivation.map_key_steps_upTo o.markup f cs (f.steps o.markup cs).length
      (Derivation.start o.markup text skips)
    rw [← f.map_key_steps o.markup, ← List.map_take, List.take_length, f.map_key_steps] at hall
    rw [← hq] at hrecord hall
    have hok : ¬ q.record.ok = false := by simp [hrecord.ok]
    refine ⟨q.record, q.log, derive_of_run_ok hrun, hrecord.coherent hall, ?_, ?_, ?_,
      fun hfalse => absurd hfalse hok⟩
    · rw [hq, Derivation.upTo_warnings]
      rfl
    · rw [hrecord.kept_eq, hq]
      exact List.take_prefix _ _
    · exact iff_of_false hok fun ⟨key, e, hstop⟩ => hthrough.not_stopsAt key e hstop
  · obtain ⟨log, hderive⟩ := derive_of_run_error hrun
    have hrecord := hunfailed k
    have hnext := Derivation.next_key_upTo hk (Derivation.start o.markup text skips)
    rw [← hq] at hrecord hnext
    refine ⟨_, log, hderive, hrecord.coherent_fail hnext _ _, ?_, ?_,
      iff_of_true rfl ⟨key, e, hstop⟩, fun _ => ⟨key, e, hstop, ?_, ?_⟩⟩
    · rw [hq]
      exact Derivation.upTo_warnings _ f ..
    · rw [hrecord.kept_fail, hq]
      exact List.take_prefix _ _
    · rw [hrecord.kept_fail]
      exact hnext
    · rw [hrecord.kept_fail]
      rfl

include h hf in
theorem derive_of_default (hpasses : o.passes = {}) (hchecks : o.checks = {}) :
    ∃ (d : Derivation) (log : List Log.Record), derive o text = .ok (d.withReport, log) ∧
      d.warnings = skips.map (·.warning) ∧ d.kept = f.steps o.markup f.plainForms.clauses := by
  refine ⟨_, _, derive_eq hpasses hchecks h hf, rfl, ?_⟩
  rw [Derivation.kept, Progress.steps_completed o skips hf.wellFormed text, List.filter_eq_self]
  exact fun step hstep => by simp [Formula.failed_of_mem_steps hstep]

end

namespace Request

/-- Whatever the passes and the checks do, a request comes to a record whose parts agree, and of a
derivation that fails everything stays that was made before. -/
theorem failure_keeps_earlier_steps (s : Settings) (n : Notation) (strict check : Option Bool)
    (threshold : Nat) (text : String) (passes : Passes) (checks : Checks)
    (hpasses : passes.Faulty) :
    let o : Options := { markup := n, strict := strict.getD s.strict, check := check.getD s.check,
                         threshold, passes, checks }
    ∃ d log d₀ log₀ cs,
      run { text, markup := some n.name, strict, check } s ({ · with threshold, passes, checks }) =
        .ok (d, log) ∧
      run { text, markup := some n.name, strict, check } s ({ · with threshold }) =
        .ok (d₀, log₀) ∧
      d.Coherent n cs ∧ d.report = d.markdown ∧ d.warnings = d₀.warnings ∧
      ((∀ g, passes.clauses g = g.clauses ∨ ∃ e, passes.clauses g = .error e) → d.kept <+: d₀.kept) ∧
      (∀ e, Formula.parse o.strict text = .error e → d.steps = [e.step n .reading]) ∧
      (∀ f, Formula.parse o.strict text = .ok f →
        (∃ names, f.forms.run.run (Names.ofFormula f) = (.ok f.plainForms, names)) ∧
        cs = passes.extracted f.plainForms.conjunctive ∧
        (d.ok = false ↔ ∃ key e, o.StopsAt f key e) ∧ (d.ok = false → d.FailedIn o f cs)) := by
  intro o
  let o₀ : Options := { o with passes := {}, checks := {} }
  rw [run_eq, run_eq]
  cases hparsed : Formula.parseWithSkips o.strict text with
  | mk parsed skips =>
    have hparse : Formula.parse o.strict text = parsed := congrArg Prod.fst hparsed
    cases parsed with
    | error e =>
      obtain ⟨log, hd⟩ := derive_of_parse_error hparsed
      obtain ⟨log₀, hd₀⟩ := derive_of_parse_error (o := o₀) hparsed
      have hstart := Derivation.Unfailed.start n [] text skips
      have hnext : [] ++ ["original"] <+: orderedKeys [] := by decide
      refine ⟨_, log, _, log₀, [], congrArg _ hd, congrArg _ hd₀,
        (hstart.coherent_fail hnext .reading e).withReport, Derivation.report_withReport _, rfl,
        fun _ => List.prefix_refl _, fun e' he' => ?_, fun f hf => ?_⟩
      · obtain rfl : e = e' := Except.error.inj (hparse.symm.trans he')
        rfl
      · rw [hparse] at hf
        cases hf
    | ok f =>
      have hf := Formula.isPlain_of_parse hparse
      obtain ⟨d, log, hd, hcoherent, hwarnings, hkept, hstops, hfailed⟩ :=
        derive_of_faulty hparsed hf hpasses rfl
      obtain ⟨d₀, log₀, hd₀, hwarnings₀, hkept₀⟩ := derive_of_default (o := o₀) hparsed hf rfl rfl
      refine ⟨d.withReport, log, d₀.withReport, log₀, _, congrArg _ hd, congrArg _ hd₀,
        hcoherent.withReport, Derivation.report_withReport d, ?_, fun hclauses => ?_, fun e he => ?_,
        fun g hg => ?_⟩
      · rw [Derivation.warnings_withReport, Derivation.warnings_withReport, hwarnings, hwarnings₀]
      · rw [Passes.extracted_of_raising hf.wellFormed hclauses] at hkept
        rw [Derivation.kept_withReport, Derivation.kept_withReport, hkept₀]
        exact hkept
      · rw [hparse] at he
        cases he
      · obtain rfl : f = g := Except.ok.inj (hparse.symm.trans hg)
        rw [Derivation.ok_withReport]
        exact ⟨⟨f.skolemForm.2, Formula.forms_eq hf.wellFormed⟩, rfl, hstops,
          fun hfalse => (hfailed hfalse).withReport⟩

theorem failure_keeps_earlier_steps_of_stopped_prenex :
    let passes : Passes := { prenex := fun _ => .error (.reported "to_prenex" "no prefix") }
    let text := "∀x. P(x)"
    passes.Faulty ∧ ∃ d log d₀ log₀ cs,
      run { text, markup := some "text" } {} ({ · with threshold := 30, passes, checks := {} }) =
        .ok (d, log) ∧
      run { text, markup := some "text" } {} ({ · with threshold := 30 }) = .ok (d₀, log₀) ∧
      d.Coherent .text cs ∧ d.kept <+: d₀.kept := by
  intro passes text
  have hpasses : passes.Faulty := by
    refine ⟨fun stage f names => ?_, fun _ => Or.inl rfl, fun _ => Or.inl rfl⟩
    cases stage with
    | prenex => exact Or.inr ⟨_, names, rfl⟩
    | _ => exact Or.inl rfl
  obtain ⟨d, log, d₀, log₀, cs, hrun, hrun₀, hcoherent, -, -, hkept, -⟩ :=
    failure_keeps_earlier_steps {} .text none none 30 text passes {} hpasses
  exact ⟨hpasses, d, log, d₀, log₀, cs, hrun, hrun₀, hcoherent, hkept fun _ => Or.inl rfl⟩

end Request

end Clausification
