import Clausification.Json.Basic
import Clausification.Notation
import Clausification.Text.Blank
import Clausification.Text.LetterCase

/-!
# Settings

What a conversion takes from its environment when it is not told otherwise.
-/

namespace Clausification

abbrev Environment := List (String × String)

structure Settings where
  markup : String := "latex"
  strict : Bool := false
  check : Bool := false
  savedDir : String := "saved"
  logLevel : String := "WARNING"
deriving DecidableEq, Inhabited

/-- A name that is no notation: given in the environment, or with a request, where it is kept as a
message shows it. -/
inductive UnknownNotation where
  | inEnvironment (name : String)
  | requested (shown : String)
deriving DecidableEq, Inhabited

def UnknownNotation.message : UnknownNotation → String
  | inEnvironment name =>
    "CLAUSAL_NOTATION must be one of ('latex', 'text'), got " ++ Text.quoted name
  | requested shown => "unknown notation " ++ shown ++ "; expected one of ['latex', 'text']"

namespace Settings

/-- The settings of an environment. A switch is on when its variable exists, whatever it holds. -/
def ofEnvironment (env : Environment) : Except UnknownNotation Settings :=
  let markup := Text.lower (Text.strip ((env.lookup "CLAUSAL_NOTATION").getD "latex"))
  if (Notation.ofName? markup).isSome then
    .ok {
      markup
      strict := (env.lookup "CLAUSAL_STRICT_LEX").isSome
      check := (env.lookup "CLAUSAL_CHECK_INVARIANTS").isSome
      savedDir := (env.lookup "CLAUSAL_SAVED_DIR").getD "saved"
      logLevel := Text.upper ((env.lookup "CLAUSAL_LOG_LEVEL").getD "WARNING") }
  else .error (.inEnvironment markup)

end Settings

def Notation.request (name : String) : Except UnknownNotation Notation :=
  match ofName? name with
  | some n => .ok n
  | none => .error (.requested (Text.quoted name))

@[simp] theorem Notation.request_name (n : Notation) : request n.name = .ok n := by simp [request]

inductive NotationError where
  | unknown (e : UnknownNotation)
  /-- An array or an object, which is not looked up at all. -/
  | noName
deriving DecidableEq, Inhabited

def Notation.ofValue : Json → Except NotationError Notation
  | .string name => (request name).mapError .unknown
  | v =>
    match v.scalarText? with
    | some shown => .error (.unknown (.requested shown))
    | none => .error .noName

/-- The notation that a value may ask for: none in particular if the value is off. -/
def Notation.ofSwitchable (v : Json) : Except NotationError (Option Notation) :=
  if v.switch? = some true then (ofValue v).map some else .ok none

end Clausification
