import Clausification.CommandLine.Run

/-!
# The program

Runs the command line on the real file system.
-/

namespace Clausification.CommandLine

def settingNames : List String :=
  ["CLAUSAL_NOTATION", "CLAUSAL_STRICT_LEX", "CLAUSAL_CHECK_INVARIANTS", "CLAUSAL_SAVED_DIR",
    "CLAUSAL_LOG_LEVEL"]

def readEnvironment : IO Environment :=
  settingNames.filterMapM fun name => return (← IO.getEnv name).map (name, ·)

def refuse (text : String) (code : UInt32) : IO UInt32 := do
  IO.eprintln text
  return code

def carryOut (r : Response) (directory : Option String) : IO UInt32 := do
  IO.eprint (String.join (r.log.map fun record => record.line ++ "\n"))
  IO.print r.stdout
  match directory with
  | some directory =>
    if !r.files.isEmpty then
      IO.FS.createDirAll directory
      for (name, content) in r.files do
        IO.FS.writeFile (joinNames directory name) content
      IO.println ("\nWrote: " ++ directory)
  | none => pure ()
  return r.code.toUInt32

def runProcess (args : List String) : IO UInt32 := do
  match parseArguments args with
  | .error e => refuse ("error: " ++ e.message) 2
  | .ok .help => do
    IO.println ("usage: [formula] [--file FILE] [--out OUT] [--notation latex|text] "
      ++ "[--strict-lex] [--check-invariants] [-V]")
    return 0
  | .ok (.invocation i) =>
    if i.version then do
      IO.print (versionLine (← IO.appPath).toString)
      return 0
    else
      match Settings.ofEnvironment (← readEnvironment) with
      | .error e => refuse e.message 1
      | .ok settings =>
        match Log.threshold settings.logLevel, i.input with
        | .error name, _ => refuse name.message 1
        | _, none => refuse ("error: " ++ UsageError.missingFormula.message) 2
        | .ok threshold, some input => do
          let text ← match input with
            | .given text => pure text
            | .file name => do
              let s ← IO.FS.readFile name
              pure (String.ofList (unifyLines s.toList))
          match respond settings threshold i text with
          | .ok r => carryOut r i.directory
          | .error (.unknown e) => refuse e.message 1
          | .error (.unwritable o) => refuse o.message 1

end Clausification.CommandLine

def main (args : List String) : IO UInt32 := Clausification.CommandLine.runProcess args
