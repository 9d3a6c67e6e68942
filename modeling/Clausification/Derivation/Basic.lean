import Clausification.Clause.Horn
import Clausification.Json.Basic
import Clausification.Notation

/-!
# Derivations

The record of one conversion: every form with its label, the characters passed over, the clauses
with their kinds, and the verdict.
-/

namespace Clausification

/-- One form, in writing, under its label. The last step of a failed conversion shows the error. -/
structure Step where
  key : String
  label : String
  text : String
  failed : Bool := false
deriving DecidableEq, Inhabited

structure Warning where
  char : String
  offset : Int
  message : String
deriving DecidableEq, Inhabited

structure LiteralEntry where
  positive : Bool
  atom : String
deriving DecidableEq, Inhabited

structure ClauseEntry where
  index : Int
  literals : List LiteralEntry := []
  kind : ClauseKind
  horn : Bool
  text : String
deriving DecidableEq, Inhabited

structure Derivation where
  version : String
  source : String
  markup : Notation := .latex
  ok : Bool := true
  steps : List Step := []
  warnings : List Warning := []
  clauses : List ClauseEntry := []
  allHorn : Option Bool := none
  tptp : List String := []
  report : String := ""
deriving DecidableEq, Inhabited

namespace Derivation

def step? (d : Derivation) (key : String) : Option Step := d.steps.find? (·.key == key)

def errorStep? (d : Derivation) : Option Step := d.steps.find? (·.failed)

end Derivation

def Step.toJson (s : Step) : Json :=
  .object [("key", .string s.key), ("label", .string s.label), ("rendered", .string s.text),
    ("error", .bool s.failed)]

def Warning.toJson (w : Warning) : Json :=
  .object [("char", .string w.char), ("offset", .int w.offset), ("message", .string w.message)]

def LiteralEntry.toJson (l : LiteralEntry) : Json :=
  .object [("positive", .bool l.positive), ("atom", .string l.atom)]

def ClauseEntry.toJson (c : ClauseEntry) : Json :=
  .object [("index", .int c.index), ("literals", .array (c.literals.map (·.toJson))),
    ("kind", .string c.kind.name), ("horn", .bool c.horn), ("rendered", .string c.text)]

def Derivation.toJson (d : Derivation) : Json :=
  .object [
    ("version", .string d.version),
    ("source_text", .string d.source),
    ("notation", .string d.markup.name),
    ("ok", .bool d.ok),
    ("steps", .array (d.steps.map (·.toJson))),
    ("warnings", .array (d.warnings.map (·.toJson))),
    ("clauses", .array (d.clauses.map (·.toJson))),
    ("all_horn", .ofOption .bool d.allHorn),
    ("tptp", .array (d.tptp.map .string)),
    ("report_md", .string d.report)]

end Clausification
