import Clausification.Clause.Rendering
import Clausification.Clause.Tptp
import Clausification.Derivation.Passes
import Clausification.Derivation.Report
import Clausification.Log
import Clausification.Settings

/-!
# Running a derivation

From a text to its clauses. A fault or an obstacle ends the derivation with a step that shows it;
what was derived before stays in the record.
-/

namespace Clausification

def version : String := "0.1.0"

structure Options where
  markup : Notation := .latex
  strict : Bool := false
  check : Bool := false
  /-- Log records below this severity are not made. -/
  threshold : Nat := 30
  passes : Passes := {}
  checks : Checks := {}

structure Progress where
  record : Derivation
  names : Names := {}
  log : List Log.Record := []

inductive FailedAt where
  | reading
  | transforming
deriving DecidableEq

def FailedAt.label : FailedAt → String
  | reading => "Parser error"
  | transforming => "Transformation error"

inductive Halt where
  | failed (place : FailedAt) (e : Failure)
  /-- A result that cannot be written, which only passes supplied from outside can cause. -/
  | unwritable (o : Obstacle)

/-- Steps of a derivation. What has been derived outlives a halt. -/
abbrev Deriving (α : Type) := ExceptT Halt (StateM Progress) α

namespace Deriving

def orFail {α : Type} (place : FailedAt) (x : Except Failure α) : Deriving α :=
  ExceptT.mk (pure (x.mapError (Halt.failed place)))

def written {α : Type} (x : Except Obstacle α) : Deriving α :=
  ExceptT.mk (pure (x.mapError Halt.unwritable))

def update (f : Derivation → Derivation) : Deriving Unit :=
  modify fun p => { p with record := f p.record }

def addStep (key label text : String) : Deriving Unit :=
  update fun d => { d with steps := d.steps ++ [{ key, label, text }] }

def addLog (o : Options) (rs : List Log.Record) : Deriving Unit :=
  modify fun p => { p with log := p.log ++ rs.filter (o.threshold ≤ ·.level.severity) }

def drawing (x : Naming Obstacle Formula) : Deriving (Except Obstacle Formula) :=
  modifyGet fun p =>
    let (r, names) := x.run.run p.names
    (r, { p with names })

def advance (o : Options) (used : List String) (stage : Stage) (f : Formula) :
    Deriving Formula := do
  let r ← drawing (runStage o.passes o.checks o.check used stage f)
  let g ← orFail .transforming (r.mapError .obstructed)
  if o.threshold ≤ Log.Level.debug.severity then
    addLog o [⟨.pipeline, .debug, stage.key ++ ": " ++ (← written (g.render .text))⟩]
  addStep stage.key stage.label (← written (g.render o.markup))
  return g

end Deriving

def Unrecognized.warning (u : Unrecognized) : Warning :=
  { char := u.char.toString, offset := u.offset, message := u.skippedMessage }

def Clause.entry (n : Notation) (index : Nat) (c : Clause) : Except Obstacle ClauseEntry := do
  let literals ← c.mapM fun l => return { positive := l.positive, atom := ← l.atom.render n }
  return { index := index, literals, kind := c.kind, horn := c.isHorn, text := ← c.render n }

def Clause.entries (n : Notation) : (index : Nat) → List Clause → Except Obstacle (List ClauseEntry)
  | _, [] => return []
  | index, c :: cs => return (← c.entry n index) :: (← entries n (index + 1) cs)

namespace Deriving

/-- Read the text. The characters passed over are noted even if the rest makes no formula. -/
def read (o : Options) (text : String) : Deriving Formula := do
  let (parsed, skips) := Formula.parseWithSkips o.strict text
  addLog o (skips.map fun u => ⟨.lexer, .warning, u.skippedMessage⟩)
  update fun d => { d with warnings := skips.map (·.warning) }
  orFail .reading parsed

def conclude (o : Options) (cs : List Clause) : Deriving Unit := do
  addStep "clauses" "Clausal form (set of clauses)" (← written (Clause.renderAll o.markup cs))
  if cs.isEmpty then
    addStep "horn" "Horn clause analysis" (o.markup.prose "no clauses found")
  else
    let kinds := cs.map (·.kind)
    let entries ← written (Clause.entries o.markup 1 cs)
    update fun d => { d with clauses := entries, allHorn := some (allHorn kinds) }
    addStep "horn" "Horn clause analysis"
      (← written (Clause.table o.markup cs (kinds.map (·.name))))
    addStep "horn_summary" "Horn summary" (o.markup.prose (hornVerdict (allHorn kinds)))
  update fun d => { d with tptp := Tptp.lines "c" cs }

def compare (o : Options) (f : Formula) : Deriving Unit := do
  let g ← orFail .transforming ((do
    let g ← o.passes.disjunctive f
    if o.check then verified (o.checks.disjunctive g) g else return g).mapError .obstructed)
  addStep "dnf" "DNF: disjunctive normal form (comparison)" (← written (g.render o.markup))

def all (o : Options) (text : String) : Deriving Unit := do
  let f ← read o text
  modify fun p => { p with names := Names.ofFormula f }
  addStep "original" "Original formula" (← written (f.render o.markup))
  let used := f.symbols
  let f ← advance o used .implicationFree f
  let f ← advance o used .negationNormal f
  let f ← advance o used .renamed f
  let f ← advance o used .prenex f
  let skolem ← advance o used .skolem f
  let f ← advance o used .conjunctive skolem
  conclude o (← orFail .transforming ((o.passes.clauses f).mapError .obstructed))
  compare o skolem

end Deriving

def Derivation.withReport (d : Derivation) : Derivation := { d with report := d.markdown }

def Derivation.fail (d : Derivation) (place : FailedAt) (e : Failure) : Derivation :=
  let step : Step :=
    { key := "error", label := place.label, text := d.markup.prose e.message, failed := true }
  { d with steps := d.steps ++ [step], ok := false }

def derive (o : Options) (text : String) : Except Obstacle (Derivation × List Log.Record) :=
  let start : Progress := { record := { version, source := text, markup := o.markup } }
  match (Deriving.all o text).run.run start with
  | (.ok _, p) => .ok (p.record.withReport, p.log)
  | (.error (.failed place e), p) =>
    let failure : Log.Record := ⟨.pipeline, .error, place.label ++ ": " ++ e.message⟩
    .ok ((p.record.fail place e).withReport,
      p.log ++ [failure].filter (o.threshold ≤ ·.level.severity))
  | (.error (.unwritable o), _) => .error o

/-- A text to convert, with what is asked for it. What is left open is up to the settings. -/
structure Request where
  text : String
  markup : Option String := none
  strict : Option Bool := none
  check : Option Bool := none
deriving DecidableEq, Inhabited

inductive RequestError where
  | unknown (e : UnknownNotation)
  | unwritable (o : Obstacle)

namespace Request

/-- The name of the notation: an empty one counts as left open. -/
def markupName (r : Request) (s : Settings) : String := (r.markup.filter (· ≠ "")).getD s.markup

def options (r : Request) (s : Settings) : Except UnknownNotation Options := do
  let markup ← Notation.request (r.markupName s)
  return { markup, strict := r.strict.getD s.strict, check := r.check.getD s.check }

/-- Convert a text. `adjust` has the last word on the options. -/
def run (r : Request) (s : Settings) (adjust : Options → Options) :
    Except RequestError (Derivation × List Log.Record) := do
  let o ← (r.options s).mapError .unknown
  (derive (adjust o) r.text).mapError .unwritable

end Request

end Clausification
