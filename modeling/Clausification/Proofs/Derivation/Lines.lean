import Clausification.Proofs.Clause.Composition
import Clausification.Proofs.Derivation.Fault
import Clausification.Proofs.Derivation.Identifiers
import Clausification.Proofs.Derivation.Record
import Clausification.Proofs.Reader.Messages

/-!
# The lines of a report

In mark-up the text of each step is made of lines that neither a line break nor the separator of lines
divides: a single one, or the rows of the table of clauses. So the report cuts it where it was joined,
and each of these lines becomes one line of mathematics.
-/

namespace Clausification

namespace Text

def lines (s : String) : List String := splitAt "\n" s

/-- A line of mathematics, as a report has it. -/
def math (s : String) : String := "$$" ++ strip s ++ "$$"

/-- The lines of a text that begin with mathematics. -/
def mathLines (s : String) : List String := (lines s).filter fun l => ['$', '$'].isPrefixOf l.toList

theorem lines_join {parts : List String} (hne : parts ≠ []) :
    lines (join "\n" parts) = parts.flatMap lines :=
  splitAt_join_of_singleton rfl hne

theorem lines_eq_self {s : String} (h : '\n' ∉ s.toList) : lines s = [s] :=
  splitAt_of_apart (apart_singleton h)

theorem lines_append_lineFeed (s : String) : lines (s ++ "\n") = lines s ++ [""] := by
  have hjoin : s ++ "\n" = join "\n" [s, ""] := by
    rw [← String.toList_inj, toList_join_cons_cons, String.toList_append]
    rfl
  rw [hjoin, lines_join (List.cons_ne_nil _ _), List.flatMap_cons, List.flatMap_singleton,
    lines_eq_self (s := "") (by decide)]

theorem mathLines_join {parts : List String} (hne : parts ≠ []) :
    mathLines (join "\n" parts) = parts.flatMap mathLines := by
  rw [mathLines, lines_join hne, List.filter_flatMap]
  rfl

theorem mathLines_eq_nil {s : String} (h : '\n' ∉ s.toList) (hbegins : ¬ ['$', '$'] <+: s.toList) :
    mathLines s = [] := by
  rw [mathLines, lines_eq_self h, List.filter_eq_nil_iff, List.forall_mem_singleton,
    List.isPrefixOf_iff_prefix]
  exact hbegins

theorem mathLines_math {s : String} (h : '\n' ∉ s.toList) : mathLines (math s) = [math s] := by
  have hstrip : '\n' ∉ (strip s).toList := by
    rw [strip, String.toList_ofList]
    exact fun hmem => h (stripList_subset _ hmem)
  have hmath : '\n' ∉ (math s).toList :=
    not_mem_append (not_mem_append (by decide) hstrip) (by decide)
  rw [mathLines, lines_eq_self hmath, List.filter_eq_self, List.forall_mem_singleton,
    List.isPrefixOf_iff_prefix]
  simp [math]

/-- What neither a line break nor a separator of lines divides. -/
def IsLine (s : String) : Prop := singleBackslashes s.toList ∧ '\n' ∉ s.toList

end Text

open Text (IsLine math mathLines)

namespace Notation

theorem composes_isLine : latex.Composes fun cs => Text.singleBackslashes cs ∧ '\n' ∉ cs :=
  composes_singleBackslashes.and composes_singleLine

theorem isLine_of_isIdentifier {x : String} (hx : isIdentifier x.toList) : IsLine x := by
  have hword := forall_isWordChar_of_isIdentifier hx
  exact composes_isLine.plain (fun hmem => absurd (hword _ hmem) (by decide))
    (fun hmem => absurd (hword _ hmem) (by decide))

theorem isLine_prose {s : String} (hs : '\n' ∉ s.toList) : IsLine (latex.prose s) :=
  ⟨singleBackslashes_prose s, lineFeed_not_mem_prose hs⟩

end Notation

/-- The text of the step is made of lines: as many as `rows` in the table of clauses, and otherwise
one. -/
def Step.HasLines (rows : Nat) (step : Step) : Prop :=
  '\n' ∉ step.label.toList ∧ ∃ parts, parts ≠ [] ∧ (∀ p ∈ parts, IsLine p) ∧
    step.text = Text.join Notation.latex.signs.betweenLines parts ∧
    parts.length = if step.key = "horn" then rows else 1

namespace Step
variable {step : Step} {rows : Nat}

theorem hasLines_of_isLine {key label text : String} {failed : Bool} (hlabel : '\n' ∉ label.toList)
    (hkey : key ≠ "horn") (htext : IsLine text) : HasLines rows { key, label, text, failed } :=
  ⟨hlabel, [text], List.cons_ne_nil _ _, List.forall_mem_singleton.mpr htext, rfl,
    (if_neg hkey).symm⟩

theorem body_eq_join {parts : List String} (hne : parts ≠ []) (hparts : ∀ p ∈ parts, IsLine p)
    (htext : step.text = Text.join Notation.latex.signs.betweenLines parts) :
    step.body .latex = Text.join "\n" (parts.map math) := by
  have hcut : Text.splitAt Notation.latex.signs.betweenLines step.text = parts := by
    rw [htext]
    exact Text.splitAt_join (by decide) hne fun p hp => Notation.apart_betweenLines (hparts p hp).1
  rw [body, hcut]
  rfl

theorem markdown_eq_join (n : Notation) (step : Step) : step.markdown n = Text.join "\n"
    ["## " ++ (if step.failed then "⚠ " else "") ++ step.label, "", step.body n, ""] := by
  rw [← String.toList_inj]
  simp [markdown, Text.join]

theorem mathLines_markdown {parts : List String} (hlabel : '\n' ∉ step.label.toList)
    (hne : parts ≠ []) (hparts : ∀ p ∈ parts, IsLine p)
    (htext : step.text = Text.join Notation.latex.signs.betweenLines parts) :
    mathLines (step.markdown .latex) = parts.map math := by
  have htitle : '\n' ∉ ("## " ++ (if step.failed then "⚠ " else "") ++ step.label).toList := by
    refine Text.not_mem_append (Text.not_mem_append (by decide) ?_) hlabel
    split <;> decide
  have hbody : mathLines (step.body .latex) = parts.map math := by
    rw [body_eq_join hne hparts htext, Text.mathLines_join (by simpa using hne), List.flatMap_map,
      List.map_eq_flatMap]
    exact List.flatMap_congr fun p hp => Text.mathLines_math (hparts p hp).2
  rw [markdown_eq_join, Text.mathLines_join (List.cons_ne_nil _ _)]
  simp only [List.flatMap_cons, List.flatMap_nil, hbody]
  rw [Text.mathLines_eq_nil htitle (by simp), Text.mathLines_eq_nil (by decide) (by decide)]
  simp

end Step

theorem Clause.length_rowsFrom (n : Notation) (i : Nat) (cs : List Clause) (kinds : List String) :
    (rowsFrom n i cs kinds).length = min cs.length kinds.length := by
  induction cs generalizing i kinds with
  | nil => simp [rowsFrom]
  | cons c cs ih =>
    cases kinds with
    | nil => rfl
    | cons kind kinds => simp only [rowsFrom, List.length_cons, ih, Nat.add_min_add_right]

theorem Clause.hasLines_of_mem_steps {cs : List Clause} (hne : cs ≠ [])
    (hcs : ∀ c ∈ cs, ∀ l ∈ c, ∀ x ∈ l.atom.symbols, isIdentifier x.toList) :
    ∀ step ∈ steps .latex cs, step.HasLines cs.length := by
  have hnames : ∀ c ∈ cs, ∀ l ∈ c, ∀ x ∈ l.atom.symbols, IsLine x := by
    intro c hc l hl x hx
    exact Notation.isLine_of_isIdentifier (hcs c hc l hl x hx)
  have hkinds : ∀ k ∈ (cs.map kind).map ClauseKind.name, IsLine (Notation.latex.prose k) := by
    intro k hk
    obtain ⟨kind, -, rfl⟩ := List.mem_map.mp hk
    exact Notation.isLine_prose (by cases kind <;> decide)
  have hverdict (allHorn : Bool) : IsLine (Notation.latex.prose (hornVerdict allHorn)) :=
    Notation.isLine_prose (by cases allHorn <;> decide)
  have hlength := length_rowsFrom .latex 1 cs ((cs.map kind).map ClauseKind.name)
  rw [List.length_map, List.length_map, Nat.min_self] at hlength
  rw [steps, if_neg (by simpa using hne)]
  refine List.forall_mem_cons.mpr ⟨?_, List.forall_mem_cons.mpr ⟨?_, List.forall_mem_singleton.mpr ?_⟩⟩
  · exact Step.hasLines_of_isLine (by decide) (by decide) (Notation.composes_isLine.clauses hnames)
  · have hlabel : '\n' ∉ "Horn clause analysis".toList := by decide
    refine ⟨hlabel, _, ?_, Notation.composes_isLine.row hnames 1 hkinds, rfl, hlength⟩
    rw [← List.length_pos_iff, hlength]
    exact List.length_pos_iff.mpr hne
  · exact Step.hasLines_of_isLine (by decide) (by decide) (hverdict _)

namespace Formula
variable {f : Formula}

theorem isLine_writing {g : Formula} (hg : ∀ x ∈ g.symbols, isIdentifier x.toList) :
    IsLine (g.writing .latex) :=
  Notation.composes_isLine.formula fun x hx => Notation.isLine_of_isIdentifier (hg x hx)

theorem hasLines_of_mem_steps (hf : f.IsPlain) :
    ∀ step ∈ f.steps .latex f.plainForms.clauses, step.HasLines f.plainForms.clauses.length := by
  have hstages (stage : Stage) : '\n' ∉ stage.label.toList ∧ stage.key ≠ "horn" := by
    cases stage <;> decide
  rw [steps, stageSteps]
  refine List.forall_mem_append.mpr ⟨List.forall_mem_append.mpr
    ⟨List.forall_mem_cons.mpr ⟨?_, List.forall_mem_map.mpr fun stage _ => ?_⟩, ?_⟩,
    List.forall_mem_singleton.mpr ?_⟩
  · exact Step.hasLines_of_isLine (by decide) (by decide)
      (isLine_writing fun _ => hf.isIdentifier_of_mem_symbols)
  · exact Step.hasLines_of_isLine (hstages stage).1 (hstages stage).2
      (isLine_writing fun _ => isIdentifier_of_mem_form hf stage)
  · apply Clause.hasLines_of_mem_steps (clauses_ne_nil hf.wellFormed)
    intro c hc l hl x hx
    exact isIdentifier_of_mem_clause hf hc hl hx
  · exact Step.hasLines_of_isLine (by decide) (by decide)
      (isLine_writing fun _ => isIdentifier_of_mem_distributed hf (Or.inr rfl))

end Formula

namespace Text

theorem stripEnd_concat {c : Char} (hc : isBlank c = false) (cs : List Char) :
    stripEnd (cs ++ [c]) = cs ++ [c] := by
  rw [stripEnd, List.reverse_concat, List.dropWhile_cons_of_neg (by simp [hc]), List.reverse_cons,
    List.reverse_reverse]

/-- A line break at the end is taken away and put back. -/
theorem stripEnd_lineFeed {c : Char} (hc : isBlank c = false) {s : String} {cs : List Char}
    (hs : s.toList = cs ++ [c, '\n']) : String.ofList (stripEnd s.toList) ++ "\n" = s := by
  have hstripped : stripEnd (cs ++ [c, '\n']) = stripEnd (cs ++ [c]) := by
    simp [stripEnd, show isBlank '\n' from by decide]
  rw [← String.toList_inj, String.toList_append, String.toList_ofList, hs, hstripped,
    stripEnd_concat hc, List.append_assoc]
  rfl

end Text

namespace Derivation

/-- The parts that a report is joined of. -/
def reportParts (d : Derivation) : List String :=
  d.reportHead ++ d.reportWarnings ++ d.steps.map (·.markdown d.markup) ++ d.reportClauses
    ++ d.reportTptp

theorem markdown_eq (d : Derivation) :
    d.markdown = String.ofList (Text.stripEnd (Text.join "\n" d.reportParts).toList) ++ "\n" := rfl

/-- The blanks that a report loses at its end are no more than a line break. -/
theorem lines_markdown {d : Derivation} {c : Char} (hc : Text.isBlank c = false)
    (hend : [c] <:+ (Text.join "\n" d.reportParts).toList ∨
      [c, '\n'] <:+ (Text.join "\n" d.reportParts).toList) :
    ∃ behind, Text.lines d.markdown = d.reportParts.flatMap Text.lines ++ behind := by
  have hne : d.reportParts ≠ [] := by simp [reportParts, reportHead]
  rw [markdown_eq, ← Text.lines_join hne]
  rcases hend with ⟨cs, hcs⟩ | ⟨cs, hcs⟩
  · refine ⟨[""], ?_⟩
    rw [← hcs, Text.stripEnd_concat hc, hcs, String.ofList_toList, Text.lines_append_lineFeed]
  · refine ⟨[], ?_⟩
    rw [Text.stripEnd_lineFeed hc hcs.symm, List.append_nil]

/-- The report has the lines of the steps in their order. Each step has one line of mathematics, but
the table of clauses, which there is if there are clauses, has one for each of them. -/
structure InLines (d : Derivation) : Prop where
  report : ∃ behind, Text.lines d.report = (d.reportHead ++ d.reportWarnings).flatMap Text.lines ++
    d.steps.flatMap (fun step => Text.lines (step.markdown .latex)) ++ behind
  single : ∀ step ∈ d.steps, step.key ≠ "horn" →
    mathLines (step.markdown .latex) = [math step.text]
  table : ∀ step ∈ d.steps, step.key = "horn" → ∃ rows,
    step.text = Text.join Notation.latex.signs.betweenLines rows ∧ rows.length = d.clauses.length ∧
    mathLines (step.markdown .latex) = rows.map math
  table_iff : (∃ step ∈ d.steps, step.key = "horn") ↔ d.clauses ≠ []

section
variable {d : Derivation} (hmarkup : d.markup = .latex)
  (hsteps : ∀ step ∈ d.steps, step.HasLines d.clauses.length)

include hmarkup hsteps

theorem lines_markdown_of_hasLines
    (hend : d.tptp ≠ [] ∨ d.clauses = [] ∧ d.tptp = [] ∧ d.steps ≠ []) :
    ∃ behind, Text.lines d.markdown = d.reportParts.flatMap Text.lines ++ behind := by
  rcases hend with htptp | ⟨hclauses, htptp, hne⟩
  · have hparts : ∃ init, d.reportParts = init ++ ["```"] := by
      rw [reportParts, reportTptp, if_neg (by simpa using htptp), ← List.append_assoc]
      exact ⟨_, rfl⟩
    obtain ⟨init, hparts⟩ := hparts
    have hlast : ['`'] <:+ "```".toList := by decide
    refine lines_markdown (c := '`') (by decide) (Or.inl ?_)
    rw [hparts]
    exact hlast.trans (Text.suffix_join_concat "\n" init "```")
  · obtain ⟨init, step, hlast⟩ := List.eq_nil_or_concat d.steps |>.resolve_left hne
    obtain ⟨-, parts, hpartsne, hparts, htext, -⟩ := hsteps step (by simp [hlast])
    obtain ⟨before, p, rfl⟩ := List.eq_nil_or_concat parts |>.resolve_left hpartsne
    have hbody : ['$'] <:+ (step.body .latex).toList := by
      rw [Step.body_eq_join hpartsne hparts htext, List.concat_eq_append, List.map_append]
      refine List.IsSuffix.trans ?_ (Text.suffix_join_concat "\n" _ (math p))
      exact ⟨("$$" ++ Text.strip p ++ "$").toList, by simp [math]⟩
    obtain ⟨cs, hcs⟩ := hbody
    have hstep : ['$', '\n'] <:+ (step.markdown .latex).toList :=
      ⟨("## " ++ (if step.failed then "⚠ " else "") ++ step.label ++ "\n\n").toList ++ cs, by
        simp [Step.markdown, ← hcs]⟩
    refine lines_markdown (c := '$') (by decide) (Or.inr ?_)
    rw [reportParts, reportClauses, reportTptp, hclauses, htptp, hlast, hmarkup, List.concat_eq_append,
      List.map_append, List.map_singleton]
    simp only [List.isEmpty_nil, if_true, List.append_nil, ← List.append_assoc]
    exact hstep.trans (Text.suffix_join_concat "\n" _ _)

theorem inLines_withReport
    (hend : d.tptp ≠ [] ∨ d.clauses = [] ∧ d.tptp = [] ∧ d.steps ≠ [])
    (hiff : (∃ step ∈ d.steps, step.key = "horn") ↔ d.clauses ≠ []) : d.withReport.InLines := by
  obtain ⟨behind, hbehind⟩ := lines_markdown_of_hasLines hmarkup hsteps hend
  have hlines : Text.lines d.markdown = (d.reportHead ++ d.reportWarnings).flatMap Text.lines ++
      d.steps.flatMap (fun step => Text.lines (step.markdown .latex)) ++
      ((d.reportClauses ++ d.reportTptp).flatMap Text.lines ++ behind) := by
    simp only [hbehind, reportParts, hmarkup, List.flatMap_append, List.flatMap_map,
      List.append_assoc]
  have hsingle : ∀ step ∈ d.steps, step.key ≠ "horn" →
      mathLines (step.markdown .latex) = [math step.text] := by
    intro step hstep hkey
    obtain ⟨hlabel, parts, hne, hparts, htext, hlength⟩ := hsteps step hstep
    rw [if_neg hkey, List.length_eq_one_iff] at hlength
    obtain ⟨p, rfl⟩ := hlength
    rw [Step.mathLines_markdown hlabel hne hparts htext, htext]
    rfl
  have htable : ∀ step ∈ d.steps, step.key = "horn" → ∃ rows,
      step.text = Text.join Notation.latex.signs.betweenLines rows ∧
      rows.length = d.clauses.length ∧ mathLines (step.markdown .latex) = rows.map math := by
    intro step hstep hkey
    obtain ⟨hlabel, parts, hne, hparts, htext, hlength⟩ := hsteps step hstep
    rw [if_pos hkey] at hlength
    exact ⟨parts, htext, hlength, Step.mathLines_markdown hlabel hne hparts htext⟩
  have hreport : d.withReport.report = d.markdown := rfl
  refine withReport_of_forall (P := fun d' => d'.report = d.markdown → d'.InLines) ?_ hreport
  intro r hr
  exact ⟨⟨_, (congrArg Text.lines hr).trans hlines⟩, hsingle, htable, hiff⟩

end

end Derivation

theorem Clause.length_entriesFrom (n : Notation) (i : Nat) (cs : List Clause) :
    (entriesFrom n i cs).length = cs.length := by
  induction cs generalizing i with
  | nil => rfl
  | cons c cs ih => exact congrArg Nat.succ (ih (i + 1))

namespace Derivation
variable {o : Options} (hmarkup : o.markup = .latex) {text : String}

include hmarkup

theorem inLines_of_parse_error {e : Failure} (h : Formula.parse o.strict text = .error e)
    (skips : List Unrecognized) :
    ((start o.markup text skips).fail .reading e).withReport.InLines := by
  have hline := Notation.isLine_prose (Formula.lineFeed_not_mem_message h)
  rw [hmarkup]
  refine inLines_withReport rfl ?_ (Or.inr ⟨rfl, rfl, List.cons_ne_nil _ _⟩) ?_
  · exact List.forall_mem_singleton.mpr (Step.hasLines_of_isLine (by decide) (by decide) hline)
  · refine iff_of_false ?_ fun hne => hne rfl
    rintro ⟨step, hstep, hkey⟩
    obtain rfl := List.mem_singleton.mp hstep
    exact absurd hkey (by decide : "error" ≠ "horn")

theorem inLines_of_parse {f : Formula} (hf : f.IsPlain) (skips : List Unrecognized) :
    ((Progress.start o.markup text).completed o skips f).record.withReport.InLines := by
  have hne := Formula.clauses_ne_nil hf.wellFormed
  have hsteps := Progress.steps_completed o skips hf.wellFormed text
  have hlength := Clause.length_entriesFrom o.markup 1 f.plainForms.clauses
  have htptp : Tptp.lines "c" f.plainForms.clauses ≠ [] := by simpa [Tptp.lines] using hne
  have hhorn : "horn" ∈ (f.steps o.markup f.plainForms.clauses).map (·.key) := by
    rw [f.map_key_steps, orderedKeys]
    simp
  refine inLines_withReport hmarkup ?_ (Or.inl htptp)
    (iff_of_true ?_ (Clause.entriesFrom_ne_nil o.markup 1 hne))
  · rw [hsteps, hmarkup]
    intro step hstep
    have hlines := Formula.hasLines_of_mem_steps hf step hstep
    rwa [← hlength] at hlines
  · rw [hsteps]
    exact List.mem_map.mp hhorn

end Derivation

namespace Request

theorem exists_run_inLines {r : Request} {s : Settings} (threshold : Nat)
    (hmarkup : Notation.request (r.markupName s) = .ok .latex) :
    ∃ d log, r.run s ({ · with threshold }) = .ok (d, log) ∧ d.InLines := by
  let o : Options :=
    { markup := .latex, strict := r.strict.getD s.strict, check := r.check.getD s.check, threshold }
  have hrun : r.run s ({ · with threshold }) = (derive o r.text).mapError .unwritable :=
    run_of_markup hmarkup _
  rw [hrun]
  cases hparsed : Formula.parseWithSkips o.strict r.text with
  | mk parsed skips =>
    have hparse : Formula.parse o.strict r.text = parsed := congrArg Prod.fst hparsed
    cases parsed with
    | error e =>
      obtain ⟨log, hderive⟩ := derive_of_parse_error hparsed
      exact ⟨_, log, congrArg _ hderive, Derivation.inLines_of_parse_error rfl hparse skips⟩
    | ok f =>
      have hf := Formula.isPlain_of_parse hparse
      have hderive := derive_eq (o := o) rfl rfl hparsed hf
      exact ⟨_, _, congrArg _ hderive, Derivation.inLines_of_parse rfl hf skips⟩

/-- In mark-up a table is cut into its rows at the separator that joined them, and formulas, lists of
clauses and prose have no separator. So the report of a conversion, whatever its text, has one line of
mathematics for each step, and in the table of clauses one for each clause. -/
theorem report_is_cut_where_it_was_joined :
    (∀ (cs : List Clause) (kinds : List String), (∀ c ∈ cs, c.WellFormed) →
      (∀ c ∈ cs, ∀ l ∈ c, ∀ x ∈ l.atom.symbols, '\\' ∉ x.toList) →
      ∃ t rows, Clause.table .latex cs kinds = .ok t ∧
        Clause.tableRows .latex 1 cs kinds = .ok rows ∧
        rows.length = min cs.length kinds.length ∧
        (0 < min cs.length kinds.length →
          Text.splitAt Notation.latex.signs.betweenLines t = rows)) ∧
    (∀ f : Formula, f.wellFormed → (∀ x ∈ f.symbols, '\\' ∉ x.toList) →
      ∃ t, f.render .latex = .ok t ∧ ¬ Notation.latex.signs.betweenLines.toList <:+: t.toList) ∧
    (∀ cs : List Clause, (∀ c ∈ cs, c.WellFormed) →
      (∀ c ∈ cs, ∀ l ∈ c, ∀ x ∈ l.atom.symbols, '\\' ∉ x.toList) →
      ∃ t, Clause.renderAll .latex cs = .ok t ∧
        ¬ Notation.latex.signs.betweenLines.toList <:+: t.toList) ∧
    (∀ s : String, ¬ Notation.latex.signs.betweenLines.toList <:+: (Notation.latex.prose s).toList) ∧
    (∀ (r : Request) (s : Settings) (threshold : Nat),
      Notation.request (r.markupName s) = .ok .latex →
      ∃ d log, r.run s ({ · with threshold }) = .ok (d, log) ∧ d.InLines) := by
  have hsingle := Notation.composes_singleBackslashes
  refine ⟨?_, ?_, ?_, ?_, ?_⟩
  · intro cs kinds hwf hnames
    have hlength := Clause.length_rowsFrom .latex 1 cs kinds
    have hrows := hsingle.row
      (fun c hc l hl x hx => Text.singleBackslashes_of_not_mem (hnames c hc l hl x hx)) 1
      fun k (_ : k ∈ kinds) => Notation.singleBackslashes_prose k
    refine ⟨_, _, Clause.table_eq .latex kinds hwf, Clause.tableRows_eq .latex 1 kinds hwf, hlength, ?_⟩
    intro hpos
    rw [← hlength, List.length_pos_iff] at hpos
    apply Text.splitAt_join (by decide) hpos
    intro r hr
    exact Notation.apart_betweenLines (hrows r hr)
  · intro f hf hnames
    have hline := hsingle.formula fun x hx => Text.singleBackslashes_of_not_mem (hnames x hx)
    exact ⟨_, Formula.render_eq .latex hf, Notation.not_infix_betweenLines hline⟩
  · intro cs hwf hnames
    have hline := hsingle.clauses
      fun c hc l hl x hx => Text.singleBackslashes_of_not_mem (hnames c hc l hl x hx)
    exact ⟨_, Clause.renderAll_eq .latex hwf, Notation.not_infix_betweenLines hline⟩
  · intro s
    exact Notation.not_infix_betweenLines (Notation.singleBackslashes_prose s)
  · intro r s threshold
    exact exists_run_inLines threshold

/-- Kinds and a text that have the separator and the signs of mathematics themselves. -/
theorem report_is_cut_where_it_was_joined_of_separators :
    let cs : List Clause := [[⟨true, ⟨"P", [.var "x"]⟩⟩], [⟨false, ⟨"Q", []⟩⟩]]
    let f : Formula := .all "x" (.implies (.atom ⟨"P", [.var "x"]⟩) (.not (.atom ⟨"Q", []⟩)))
    let r : Request := { text := "P(x) ∧\n$$ \\\\ ¬Q" }
    (∃ t rows, Clause.table .latex cs ["a \\\\ b", "goal", "fact"] = .ok t ∧ rows.length = 2 ∧
      Text.splitAt Notation.latex.signs.betweenLines t = rows) ∧
    (∃ t, f.render .latex = .ok t ∧ ¬ Notation.latex.signs.betweenLines.toList <:+: t.toList) ∧
    (∃ t, Clause.renderAll .latex cs = .ok t ∧
      ¬ Notation.latex.signs.betweenLines.toList <:+: t.toList) ∧
    ∃ d log, r.run {} ({ · with threshold := 30 }) = .ok (d, log) ∧ d.InLines := by
  intro cs f r
  obtain ⟨htable, hformula, hclauses, -, hrun⟩ := report_is_cut_where_it_was_joined
  have hwf : ∀ c ∈ cs, Clause.WellFormed c := by decide
  have hnames : ∀ c ∈ cs, ∀ l ∈ c, ∀ x ∈ l.atom.symbols, '\\' ∉ x.toList := by decide
  obtain ⟨t, rows, htable, -, hlength, hcut⟩ :=
    htable cs ["a \\\\ b", "goal", "fact"] hwf hnames
  exact ⟨⟨t, rows, htable, hlength, hcut (by decide)⟩, hformula f rfl (by decide),
    hclauses cs hwf hnames, hrun r {} 30 rfl⟩

end Request

end Clausification
