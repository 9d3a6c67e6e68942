import Clausification.Archive.Query

/-!
# Archive of queries

Converted formulas are kept in a directory, one file for each query, named by a digest of the query,
and the result of its conversion beside it under `results`. A query that comes again takes the place
of its earlier copy.
-/

namespace Clausification.Archive

def fileName (hash : String) : String := hash ++ ".json"

def resultName (hash : String) : String := "results/" ++ hash ++ ".json"

def answer (hash : String) (d : Derivation) : Json :=
  .object [("success", .bool true), ("result", d.toJson), ("saved_hash", .string hash)]

/-- Write a value into a file, as far as it can be written. -/
def dump (t : FileTree) (name : String) (v : Json) : Except ArchiveError Unit × FileTree :=
  match t.write name v.pretty with
  | .error e => (.error (.file e), t)
  | .ok t => (if v.written.whole then .ok () else .error .unencodable, t)

/-- Keep a result. If its file cannot be opened, the result is not kept, and nothing else
changes. -/
def keepResult (t : FileTree) (hash : String) (v : Json) : Except ArchiveError Unit × FileTree :=
  match t.makeDirs "results" with
  | .error e => (.error (.file e), t)
  | .ok t =>
    match dump t (resultName hash) v with
    | (.error (.file _), t) => (.ok (), t)
    | dumped => dumped

/-- Keep a query with its result. What has been written before a failure stays. -/
def keep (t : FileTree) (timestamp : String) (q : Query) (v : Json) :
    Except ArchiveError Json × FileTree :=
  match dump t (fileName q.hash) (q.saved timestamp) with
  | (.error e, t) => (.error e, t)
  | (.ok (), t) =>
    let (r, t) := keepResult t q.hash v
    (r.map fun _ => v, t)

/-- Convert a query and keep it with its result. Nothing is kept of a query that is refused. -/
def submit (env : Environment) (timestamp : String) (q : Query) (t : FileTree) :
    Except ArchiveError Json × FileTree :=
  if Text.isBlankText q.formula.legible then (.error (.rejected "Formula cannot be empty"), t)
  else
    match q.run env with
    | .error (.unknownNotation e) => (.error (.rejected e.message), t)
    | .error e => (.error e, t)
    | .ok d => keep t timestamp q (answer q.hash d)

structure Entry where
  hash : String
  formula : Json
  timestamp : Json
  markup : Json

/-- What entries are ordered by. A time that is missing, zero or empty is an empty text. -/
def Entry.time (e : Entry) : Json :=
  if e.timestamp.switch? = some true then e.timestamp else .string ""

def stem (name : String) : String :=
  if name = ".json" then name else String.ofList (name.toList.take (name.length - 5))

def entryOf (t : FileTree) (name : String) : Except ArchiveError (Option Entry) :=
  if !".json".toList.isSuffixOf name.toList then .ok none
  else
    match t.read name with
    | .error _ => .ok none
    | .ok content =>
      match Json.parse content with
      | .error .malformed => .ok none
      | .error e => .error (.unreadable e)
      | .ok v =>
        if v.members?.isNone then .error .noObject
        else .ok (some {
          hash := stem name
          formula := (v.get? "formula").getD (.string "")
          timestamp := (v.get? "timestamp").getD .null
          markup := (v.get? "notation").getD .null })

def allComparable : List Json → Bool
  | [] => true
  | v :: vs => vs.all (fun w => (v.before? w).isSome) && allComparable vs

def list (t : FileTree) : Except ArchiveError (List Entry) := do
  let entries ← t.topNames.filterMapM (entryOf t)
  if allComparable (entries.map (·.time)) then
    return entries.mergeSort fun a b => a.time.before? b.time != some true
  else throw .incomparable

/-- The file of a kept query. A name that leads elsewhere is not known. -/
def load (hash : LooseText) (t : FileTree) : Except ArchiveError Json :=
  match hash with
  | .torn .. => .error .unknownQuery
  | .text hash =>
    if hash.startsWith "/" then .error .unknownQuery
    else
      match t.read (fileName hash) with
      | .ok content => (Json.parse content).mapError .unreadable
      | .error e =>
        if e.fault = .nameTooLong ∨ t.hasName (fileName hash) then .error (.file e)
        else .error .unknownQuery

def get (env : Environment) (hash : LooseText) (t : FileTree) : Except ArchiveError Json := do
  let _ ← (Settings.ofEnvironment env).mapError .unknownNotation
  load hash t

def listing (env : Environment) (t : FileTree) : Except ArchiveError (List Entry) := do
  let _ ← (Settings.ofEnvironment env).mapError .unknownNotation
  list t

inductive Form where
  | markdown
  | formula
  | tptp
  | json
deriving DecidableEq, Inhabited

def Form.ofName (s : LooseText) : Form :=
  match s.text?.map Text.lower with
  | some "md" | some "markdown" => .markdown
  | some "txt" | some "text" => .formula
  | some "tptp" | some "p" => .tptp
  | _ => .json

def Form.mediaType : Form → String
  | markdown => "text/markdown"
  | formula | tptp => "text/plain"
  | json => "application/json"

def encode : LooseText → Except ArchiveError String
  | .text s => .ok s
  | .torn .. => .error .unencodable

def Form.body (saved : Json) (q : Query) (d : Derivation) : Form → Except ArchiveError String
  -- the report quotes the formula
  | markdown => (encode q.formula).map fun _ =>
    if d.report.isEmpty then "No markdown report available" else d.report
  | formula => encode q.formula
  | tptp => .ok (Text.join "\n" d.tptp ++ "\n")
  | json =>
    let content := (Json.object [("query", saved), ("result", d.toJson)]).written
    if content.whole then .ok content.text else .error .unencodable

def plain (env : Environment) (hash format : LooseText) (t : FileTree) :
    Except ArchiveError (String × String) := do
  let saved ← get env hash t
  let q ← Query.ofSaved saved
  let d ← q.run env
  let form := Form.ofName format
  return (form.mediaType, ← form.body saved q d)

end Clausification.Archive
