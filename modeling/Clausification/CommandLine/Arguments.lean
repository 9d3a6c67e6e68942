import Clausification.Notation
import Clausification.Text.DecimalDigit

/-!
# Command-line arguments

One formula at most, options before or behind it. A long option may be cut short as long as it stays
unambiguous, and its value may follow behind an equals sign or as the next argument. The last of
repeated options counts. Behind `--` nothing is an option. Arguments in excess are an error, but
only in the end: help that is asked for on the way is given first.
-/

namespace Clausification.CommandLine

inductive Opt where
  | help
  | file
  | out
  | markup
  | strict
  | check
  | version
deriving DecidableEq, Inhabited

namespace Opt

def spellings : List (String × Opt) := [
  ("-h", help), ("--help", help), ("--file", file), ("--out", out), ("--notation", markup),
  ("--strict-lex", strict), ("--check-invariants", check), ("-V", version), ("--version", version)]

def takesValue : Opt → Bool
  | file | out | markup => true
  | help | strict | check | version => false

end Opt

inductive Word where
  | plain (text : String)
  | dashes
  | option (opt : Opt) (spelling : String) (attached : Option String)
  | unknown (text : String)
deriving DecidableEq, Inhabited

structure Invocation where
  formula : Option String := none
  file : Option String := none
  out : Option String := none
  markup : Option String := none
  strict : Bool := false
  check : Bool := false
  version : Bool := false
deriving DecidableEq, Inhabited

inductive UsageError where
  | unrecognized (arguments : List String)
  | ambiguous (argument : String)
  | missingValue (option : String)
  | unwantedValue (option value : String)
  | invalidChoice (option value : String)
  | missingFormula
deriving DecidableEq, Inhabited

def UsageError.message : UsageError → String
  | unrecognized as => "unrecognized arguments: " ++ Text.join " " as
  | ambiguous a => "ambiguous option: " ++ a
  | missingValue o => "argument " ++ o ++ ": expected one argument"
  | unwantedValue o v => "argument " ++ o ++ ": ignored explicit argument " ++ Text.quoted v
  | invalidChoice o v => "argument " ++ o ++ ": invalid choice: " ++ Text.quoted v
  | missingFormula => "give a formula or --file"

inductive Parsed where
  | help
  | invocation (i : Invocation)
deriving DecidableEq

def cutAtEquals (cs : List Char) : Option (String × String) :=
  match cs.dropWhile (· ≠ '=') with
  | _ :: value => some (String.ofList (cs.takeWhile (· ≠ '=')), String.ofList value)
  | [] => none

def dropFinalLineFeed (cs : List Char) : List Char :=
  if cs.getLast? = some '\n' then cs.dropLast else cs

/-- A negative number, which is no option. A line feed may stand behind it. -/
def isNegativeNumber (cs : List Char) : Bool :=
  match dropFinalLineFeed cs with
  | '-' :: cs =>
    let whole := cs.takeWhile Text.isDecimalDigit
    match cs.dropWhile Text.isDecimalDigit with
    | [] => !whole.isEmpty
    | '.' :: rest => !rest.isEmpty && rest.all Text.isDecimalDigit
    | _ => false
  | _ => false

/-- The options that an argument may stand for although it is not spelled in full: those with a long
spelling that begins with it, or a letter option with something attached. -/
def candidates (arg : String) : List Word :=
  match arg.toList with
  | '-' :: '-' :: _ =>
    let (start, attached) := match cutAtEquals arg.toList with
      | some (start, value) => (start, some value)
      | none => (arg, none)
    Opt.spellings.filterMap fun (s, opt) =>
      if start.toList.isPrefixOf s.toList then some (.option opt s attached) else none
  | '-' :: c :: attached =>
    Opt.spellings.filterMap fun (s, opt) =>
      if s = String.ofList ['-', c] then some (.option opt s (some (String.ofList attached)))
      else none
  | _ => []

/-- The role of an argument that stands before any `--`. -/
def classify (arg : String) : Except UsageError Word :=
  match arg.toList with
  | [] | ['-'] => .ok (.plain arg)
  | '-' :: _ =>
    match Opt.spellings.lookup arg with
    | some opt => .ok (.option opt arg none)
    | none =>
      let exact := (cutAtEquals arg.toList).bind fun (s, value) =>
        (Opt.spellings.lookup s).map fun opt => Word.option opt s (some value)
      match exact with
      | some word => .ok word
      | none =>
        match candidates arg with
        | [word] => .ok word
        | _ :: _ => .error (.ambiguous arg)
        | [] =>
          if isNegativeNumber arg.toList || arg.toList.contains ' ' then .ok (.plain arg)
          else .ok (.unknown arg)
  | _ => .ok (.plain arg)

def classifyAll : List String → Except UsageError (List Word)
  | [] => .ok []
  | "--" :: args => .ok (.dashes :: args.map .plain)
  | arg :: args => do return (← classify arg) :: (← classifyAll args)

def Invocation.switch (i : Invocation) : Opt → Invocation
  | .strict => { i with strict := true }
  | .check => { i with check := true }
  | .version => { i with version := true }
  | _ => i

def Invocation.set (i : Invocation) (opt : Opt) (spelling value : String) :
    Except UsageError Invocation :=
  match opt with
  | .file => .ok { i with file := some value }
  | .out => .ok { i with out := some value }
  | .markup =>
    if (Notation.ofName? value).isSome then .ok { i with markup := some value }
    else .error (.invalidChoice spelling value)
  | _ => .ok i

def Invocation.clear (i : Invocation) : Opt → Invocation
  | .file => { i with file := none }
  | .out => { i with out := none }
  | .markup => { i with markup := none }
  | _ => i

/-- An option set to the value attached to it. Two dashes are no value. -/
def Invocation.setAttached (i : Invocation) (opt : Opt) (spelling value : String) :
    Except UsageError Invocation :=
  if value = "--" then .ok (i.clear opt) else i.set opt spelling value

def letters (spelling : String) : List Char → Except UsageError (List Opt)
  | [] => .ok []
  | c :: cs =>
    match Opt.spellings.lookup (String.ofList ['-', c]) with
    | some opt => do return opt :: (← letters spelling cs)
    | none => .error (.unwantedValue spelling (String.ofList (c :: cs)))

def attachedTo (opt : Opt) (spelling value : String) : Except UsageError (List Opt) :=
  if spelling.toList.take 2 = ['-', '-'] || value.isEmpty then
    .error (.unwantedValue spelling value)
  else do return opt :: (← letters spelling value.toList)

/-- Take in the words one by one. `taken` tells whether the place of the formula is taken, `fresh`
whether the word before this one took it; `excess` holds what found no place so far, last first. -/
def consume (i : Invocation) (taken fresh : Bool) (excess : List String) :
    List Word → Except UsageError Parsed
  | [] => if excess.isEmpty then .ok (.invocation i) else .error (.unrecognized excess.reverse)
  | .plain s :: ws =>
    if taken then consume i taken false (s :: excess) ws
    else consume { i with formula := some s } true true excess ws
  | .dashes :: ws =>
    if taken && !fresh then consume i taken false ("--" :: excess) ws
    else consume i taken false excess ws
  | .unknown s :: ws => consume i taken false (s :: excess) ws
  | .option opt spelling (some value) :: ws =>
    if opt.takesValue then do consume (← i.setAttached opt spelling value) taken false excess ws
    else do
      let opts ← attachedTo opt spelling value
      if .help ∈ opts then return .help
      else consume (opts.foldl Invocation.switch i) taken false excess ws
  | .option opt spelling none :: ws =>
    if opt.takesValue then
      match ws with
      | .plain value :: ws => do consume (← i.set opt spelling value) taken false excess ws
      | _ => .error (.missingValue spelling)
    else if opt = .help then .ok .help
    else consume (i.switch opt) taken false excess ws

def parseArguments (args : List String) : Except UsageError Parsed := do
  consume {} false false [] (← classifyAll args)

end Clausification.CommandLine
