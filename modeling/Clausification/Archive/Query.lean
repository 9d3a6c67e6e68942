import Clausification.Derivation.Run
import Clausification.Digest
import Clausification.FileTree
import Clausification.Json.Order
import Clausification.Json.Reader

/-!
# Queries

A formula to convert, with what is asked for it: as it is kept in a file, and the name that it is
kept by.
-/

namespace Clausification.Archive

structure Query where
  formula : LooseText
  markup : Option LooseText := none
  strict : Option Bool := none
  check : Option Bool := none
deriving DecidableEq, Inhabited

inductive ArchiveError where
  | rejected (text : String)
  | wrongKind
  | unknownQuery
  | unknownNotation (e : UnknownNotation)
  /-- The notation is an array or an object. -/
  | unnamedNotation
  | unreadable (e : Json.ReadError)
  | noObject
  | incomparable
  | file (e : FileError)
  | unwritable (o : Obstacle)
  /-- A torn text in a file or in an answer. -/
  | unencodable

def ArchiveError.ofNotation : NotationError → ArchiveError
  | .unknown e => unknownNotation e
  | .noName => unnamedNotation

namespace Query

/-- The name of the notation that is asked for. One that is no text is that of no notation. -/
def markupName (q : Query) : Except UnknownNotation (Option String) :=
  match q.markup with
  | none => .ok none
  | some (.text name) => .ok (some name)
  | some name => .error (.requested name.quoted)

/-- What is to be converted. A half of a pair is passed over like any character that starts no
token, so the replacement character may stand for it. -/
def request (q : Query) : Except UnknownNotation Request := do
  return { text := q.formula.legible, markup := ← q.markupName, strict := q.strict, check := q.check }

def identity (q : Query) : Json :=
  .object [("check_invariants", .ofOption .bool q.check), ("formula", .loose q.formula),
    ("notation", .ofOption .loose q.markup), ("strict_lexing", .ofOption .bool q.strict)]

def hash (q : Query) : String := String.ofList ((Digest.hex q.identity.compact).toList.take 12)

def saved (q : Query) (timestamp : String) : Json :=
  .object [("formula", .loose q.formula), ("notation", .ofOption .loose q.markup),
    ("strict_lexing", .ofOption .bool q.strict), ("check_invariants", .ofOption .bool q.check),
    ("timestamp", .string timestamp)]

def savedFormula (v : Json) : Except ArchiveError LooseText :=
  match v.get? "formula" with
  | none => .ok ""
  | some (.loose s) => .ok s
  | some _ => .error .wrongKind

def ofSaved (v : Json) : Except ArchiveError Query :=
  if v.members?.isNone then .error .noObject
  else do
    let markup ←
      (Notation.ofSwitchable ((v.get? "notation").getD .null)).mapError ArchiveError.ofNotation
    return {
      formula := ← savedFormula v
      markup := markup.map fun n => n.name
      strict := (v.get? "strict_lexing").bind Json.switch?
      check := (v.get? "check_invariants").bind Json.switch? }

def run (env : Environment) (q : Query) : Except ArchiveError Derivation := do
  let settings ← (Settings.ofEnvironment env).mapError .unknownNotation
  let request ← q.request.mapError .unknownNotation
  match request.run settings id with
  | .ok (d, _) => return d
  | .error (.unknown e) => throw (.unknownNotation e)
  | .error (.unwritable o) => throw (.unwritable o)

end Query

end Clausification.Archive
