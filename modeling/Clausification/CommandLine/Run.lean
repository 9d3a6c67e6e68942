import Clausification.CommandLine.Arguments
import Clausification.Derivation.Run
import Clausification.FileTree

/-!
# The command line

Convert one formula, given as an argument or in a file: show every step, and write the record, the
report and the clauses into a directory if one is named.
-/

namespace Clausification.CommandLine

inductive Input where
  | file (name : String)
  | given (text : String)
deriving DecidableEq

/-- The source of the text. A file wins over a formula; an empty file name does not count. -/
def Invocation.input (i : Invocation) : Option Input :=
  match i.file.filter (· ≠ ""), i.formula with
  | some name, _ => some (.file name)
  | none, some text => some (.given text)
  | none, none => none

def unifyLines : List Char → List Char
  | '\r' :: '\n' :: cs => '\n' :: unifyLines cs
  | '\r' :: cs => '\n' :: unifyLines cs
  | c :: cs => c :: unifyLines cs
  | [] => []

def versionLine (packagePath : String) : String :=
  "clausal v" ++ version ++ " @ " ++ packagePath ++ "\n"

def showWarnings (ws : List Warning) : String :=
  if ws.isEmpty then ""
  else
    "\n⚠️  Lexer skipped characters:\n"
      ++ String.join (ws.map fun w => "  • " ++ w.message ++ "\n")

def showStep (s : Step) : String :=
  "\n[" ++ (if s.failed then "❌ " else "") ++ s.label ++ "]\n" ++ s.text ++ "\n"

def outputs (d : Derivation) : List (String × String) := [
  ("steps.json", d.toJson.pretty),
  ("report.md", d.report),
  ("clauses.p", Text.join "\n" d.tptp ++ if d.tptp.isEmpty then "" else "\n")]

structure Response where
  stdout : String
  log : List Log.Record := []
  files : List (String × String) := []
  code : Nat

def respond (settings : Settings) (threshold : Nat) (i : Invocation) (text : String) :
    Except RequestError Response :=
  if Text.isBlankText text then
    .ok { stdout := "[CLAUSAL] Empty formula; nothing to do.\n", code := 1 }
  else do
    let request : Request := {
      text
      markup := i.markup
      strict := if i.strict then some true else none
      check := if i.check then some true else none }
    let (d, log) ← request.run settings fun o => { o with threshold }
    return {
      stdout := showWarnings d.warnings ++ String.join (d.steps.map showStep)
      log
      files := outputs d
      code := if d.ok then 0 else 1 }

def Invocation.directory (i : Invocation) : Option String := i.out.filter (· ≠ "")

inductive Ending where
  | code (n : Nat)
  | help
  | usage (e : UsageError)
  | environment (e : UnknownNotation)
  | log (name : Log.ReservedName)
  | file (e : FileError)
  | unwritable (o : Obstacle)

structure Result where
  stdout : String := ""
  stderr : String := ""
  tree : FileTree
  ending : Ending

/-- Write files into a directory one after the other. What was written before a failure stays. -/
def writeAll (directory : String) : FileTree → List (String × String) → FileTree × Option FileError
  | t, [] => (t, none)
  | t, (name, content) :: files =>
    match t.write (joinNames directory name) content with
    | .ok t => writeAll directory t files
    | .error e => (t, some e)

def Response.finish (r : Response) (i : Invocation) (tree : FileTree) : Result :=
  let stderr := String.join (r.log.map fun record => record.line ++ "\n")
  let done : Result := { stdout := r.stdout, stderr, tree, ending := .code r.code }
  match i.directory with
  | none => done
  | some directory =>
    if r.files.isEmpty then done
    else
      match tree.makeDirs directory with
      | .error e => { done with ending := .file e }
      | .ok tree =>
        match writeAll directory tree r.files with
        | (tree, some e) => { done with tree, ending := .file e }
        | (tree, none) => { done with tree, stdout := r.stdout ++ "\nWrote: " ++ directory ++ "\n" }

def Invocation.readInput (i : Invocation) (tree : FileTree) : Except Ending String :=
  match i.input with
  | none => .error (.usage .missingFormula)
  | some (.given text) => .ok text
  | some (.file name) =>
    ((tree.read name).map fun s => String.ofList (unifyLines s.toList)).mapError .file

def run (packagePath : String) (env : Environment) (tree : FileTree) (args : List String) :
    Result :=
  match parseArguments args with
  | .error e => { tree, ending := .usage e }
  | .ok .help => { tree, ending := .help }
  | .ok (.invocation i) =>
    if i.version then { stdout := versionLine packagePath, tree, ending := .code 0 }
    else
      match Settings.ofEnvironment env with
      | .error e => { tree, ending := .environment e }
      | .ok settings =>
        let ready : Except Ending (Nat × String) := do
          let threshold ← (Log.threshold settings.logLevel).mapError .log
          return (threshold, ← i.readInput tree)
        match ready with
        | .error ending => { tree, ending }
        | .ok (threshold, text) =>
          match respond settings threshold i text with
          | .ok r => r.finish i tree
          | .error (.unknown e) => { tree, ending := .environment e }
          | .error (.unwritable o) => { tree, ending := .unwritable o }

end Clausification.CommandLine
