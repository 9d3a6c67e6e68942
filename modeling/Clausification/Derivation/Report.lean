import Clausification.Derivation.Basic
import Clausification.Text.Blank

/-!
# Reports

A derivation as a Markdown document.
-/

namespace Clausification

def hornVerdict (allHorn : Bool) : String :=
  if allHorn then "all clauses are Horn" else "not all clauses are Horn"

/-- The body of a step: a line of mathematics for each line of mark-up, or the text as it is. -/
def Step.body (n : Notation) (s : Step) : String :=
  match n with
  | .latex =>
    Text.join "\n"
      ((Text.splitAt Notation.latex.signs.betweenLines s.text).map fun l =>
        "$$" ++ Text.strip l ++ "$$")
  | .text => "```\n" ++ s.text ++ "\n```"

def Step.markdown (n : Notation) (s : Step) : String :=
  "## " ++ (if s.failed then "⚠ " else "") ++ s.label ++ "\n\n" ++ s.body n ++ "\n"

def ClauseEntry.row (n : Notation) (c : ClauseEntry) : String :=
  let positives := c.literals.countP (·.positive)
  let shown := match n with
    | .latex => "$" ++ c.text ++ "$"
    | .text => c.text
  "| C" ++ toString c.index ++ " | " ++ shown ++ " | " ++ toString positives ++ " | "
    ++ toString (c.literals.length - positives) ++ " | " ++ c.kind.name ++ " |"

namespace Derivation

def reportHead (d : Derivation) : List String :=
  ["# Clausal Form Report\n", "**Input:** `" ++ Text.strip d.source ++ "`",
    "**Status:** " ++ (if d.ok then "✓ converted" else "✗ failed")]
    ++ (match d.allHorn with
        | some b => ["**Horn:** " ++ hornVerdict b]
        | none => [])
    ++ [""]

def reportWarnings (d : Derivation) : List String :=
  if d.warnings.isEmpty then []
  else ["## Lexer warnings\n"] ++ d.warnings.map (fun w => "- " ++ w.message) ++ [""]

def reportClauses (d : Derivation) : List String :=
  if d.clauses.isEmpty then []
  else
    ["## Clauses\n", "| # | clause | + | − | kind |", "|---|--------|---|---|------|"]
      ++ d.clauses.map (·.row d.markup) ++ [""]

def reportTptp (d : Derivation) : List String :=
  if d.tptp.isEmpty then [] else ["## TPTP\n", "```"] ++ d.tptp ++ ["```"]

def markdown (d : Derivation) : String :=
  let lines := d.reportHead ++ d.reportWarnings ++ d.steps.map (·.markdown d.markup)
    ++ d.reportClauses ++ d.reportTptp
  String.ofList (Text.stripEnd (Text.join "\n" lines).toList) ++ "\n"

end Derivation

end Clausification
