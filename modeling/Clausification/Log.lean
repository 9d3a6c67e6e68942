/-!
# Log records

What a conversion reports besides its result, by source and severity.
-/

namespace Clausification.Log

inductive Level where
  | debug
  | info
  | warning
  | error
deriving DecidableEq, Inhabited

def Level.severity : Level → Nat
  | debug => 10
  | info => 20
  | warning => 30
  | error => 40

def Level.name : Level → String
  | debug => "DEBUG"
  | info => "INFO"
  | warning => "WARNING"
  | error => "ERROR"

inductive Source where
  | lexer
  | pipeline
deriving DecidableEq, Inhabited

def Source.name : Source → String
  | lexer => "clausal.fol.lexer"
  | pipeline => "clausal.pipeline"

structure Record where
  source : Source
  level : Level
  text : String
deriving DecidableEq, Inhabited

def Record.line (r : Record) : String := r.level.name ++ " " ++ r.source.name ++ ": " ++ r.text

def thresholds : List (String × Nat) := [
  ("CRITICAL", 50), ("FATAL", 50), ("ERROR", 40), ("WARNING", 30), ("WARN", 30), ("INFO", 20),
  ("DEBUG", 10), ("NOTSET", 0)]

/-- A name that stands for something other than a threshold. -/
inductive ReservedName where
  | format
  | styles
deriving DecidableEq, Inhabited

def ReservedName.text : ReservedName → String
  | format => "BASIC_FORMAT"
  | styles => "_STYLES"

def ReservedName.message : ReservedName → String
  | format => "Unknown level: '%(levelname)s:%(name)s:%(message)s'"
  | styles => "Level not an integer or a valid string"

/-- The threshold of a name; an unknown name means warnings and errors. -/
def threshold (name : String) : Except ReservedName Nat :=
  match [ReservedName.format, .styles].find? (·.text == name) with
  | some reserved => .error reserved
  | none => .ok ((thresholds.lookup name).getD Level.warning.severity)

end Clausification.Log
