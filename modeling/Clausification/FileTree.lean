import Clausification.Text.Quoted

/-!
# File trees

Directories and text files under a root, with the operations that a program needs: read a file,
write one, and make a directory with all directories above it. Names are written with slashes; the
root is where relative names begin.
-/

namespace Clausification

/-- The components of a place in a tree; the root has none. -/
abbrev Path := List String

inductive Node where
  | file (content : String)
  | directory
deriving DecidableEq, Inhabited

/-- The places of a tree that hold something, apart from the root. -/
structure FileTree where
  entries : List (Path × Node) := []
deriving DecidableEq, Inhabited

inductive FileFault where
  | missing
  | isDirectory
  | occupied
  | notDirectory
  | nameTooLong
  /-- A name with a null character, which never reaches the tree. -/
  | nullCharacter
deriving DecidableEq, Inhabited

structure FileError where
  fault : FileFault
  name : String
deriving DecidableEq, Inhabited

namespace FileFault

def code? : FileFault → Option Nat
  | missing => some 2
  | isDirectory => some 21
  | occupied => some 17
  | notDirectory => some 20
  | nameTooLong => some 36
  | nullCharacter => none

def text : FileFault → String
  | missing => "No such file or directory"
  | isDirectory => "Is a directory"
  | occupied => "File exists"
  | notDirectory => "Not a directory"
  | nameTooLong => "File name too long"
  | nullCharacter => "embedded null byte"

end FileFault

def FileError.message (e : FileError) : String :=
  match e.fault.code? with
  | some code => "[Errno " ++ toString code ++ "] " ++ e.fault.text ++ ": " ++ Text.quoted e.name
  | none => e.fault.text

def joinNames (directory name : String) : String :=
  if directory.isEmpty || directory.endsWith "/" then directory ++ name
  else directory ++ "/" ++ name

def splitName (name : String) : String × String :=
  let tail := name.toList.reverse.takeWhile (· ≠ '/')
  let head := name.toList.reverse.dropWhile (· ≠ '/')
  let trimmed := head.dropWhile (· = '/')
  let head := if trimmed.isEmpty then head else trimmed
  (String.ofList head.reverse, String.ofList tail.reverse)

def maxComponentBytes : Nat := 255

def componentsOf (name : String) : List String := (name.splitToList (· == '/')).filter (· ≠ "")

/-- Whether a name can only mean a directory. -/
def meansDirectory (name : String) : Bool :=
  let last := (name.splitToList (· == '/')).getLast?
  last == some "" || last == some "."

namespace FileTree

def node? (t : FileTree) (p : Path) : Option Node :=
  if p = [] then some .directory else t.entries.lookup p

def put (t : FileTree) (p : Path) (n : Node) : FileTree :=
  if t.entries.any (·.1 = p) then
    { t with entries := t.entries.map fun e => if e.1 = p then (p, n) else e }
  else
    { t with entries := t.entries ++ [(p, n)] }

/-- The place that components lead to from a directory. All but the last must be directories. -/
def locate (t : FileTree) : Path → List String → Except FileFault Path
  | here, [] => .ok here
  | here, "." :: cs => locate t here cs
  | here, ".." :: cs => locate t here.dropLast cs
  | here, c :: cs =>
    if maxComponentBytes < c.utf8ByteSize then .error .nameTooLong
    else if cs.isEmpty then .ok (here ++ [c])
    else
      match t.node? (here ++ [c]) with
      | none => .error .missing
      | some (.file _) => .error .notDirectory
      | some .directory => locate t (here ++ [c]) cs

def place (t : FileTree) (name : String) : Except FileFault Path :=
  if '\x00' ∈ name.toList then .error .nullCharacter else t.locate [] (componentsOf name)

def read (t : FileTree) (name : String) : Except FileError String :=
  let found : Except FileFault String := do
    match t.node? (← t.place name) with
    | none => .error .missing
    | some .directory => .error .isDirectory
    | some (.file content) => if meansDirectory name then .error .notDirectory else .ok content
  found.mapError (⟨·, name⟩)

def write (t : FileTree) (name content : String) : Except FileError FileTree :=
  let written : Except FileFault FileTree := do
    let p ← t.place name
    match t.node? p with
    | some .directory => .error .isDirectory
    | some (.file _) =>
      if meansDirectory name then .error .notDirectory else .ok (t.put p (.file content))
    | none => if meansDirectory name then .error .isDirectory else .ok (t.put p (.file content))
  written.mapError (⟨·, name⟩)

def makeDir (t : FileTree) (name : String) : Except FileError FileTree :=
  let made : Except FileFault FileTree := do
    let p ← t.place name
    match t.node? p with
    | some _ => .error .occupied
    | none => .ok (t.put p .directory)
  made.mapError (⟨·, name⟩)

def hasName (t : FileTree) (name : String) : Bool :=
  match t.place name with
  | .ok p => match t.node? p with
    | some .directory => true
    | some (.file _) => !meansDirectory name
    | none => false
  | .error _ => false

def hasDir (t : FileTree) (name : String) : Bool :=
  match t.place name with
  | .ok p => t.node? p == some .directory
  | .error _ => false

/-- Make a directory and those above it that are missing, with the fault that stops this, if there
is one. What was made before stays. A directory that is there already is kept, and an occupied place
further up is left for the next step to report. The fuel bounds how many directories are made. -/
def makeDirsWithin : (fuel : Nat) → FileTree → String → FileTree × Option FileError
  | 0, t, _ => (t, none)
  | fuel + 1, t, name =>
    let (head, tail) := splitName name
    let (head, tail) := if tail.isEmpty then splitName head else (head, tail)
    let above := !head.isEmpty && !tail.isEmpty && !t.hasName head
    let (t, stopped) := if above then makeDirsWithin fuel t head else (t, none)
    match stopped.filter (·.fault ≠ .occupied) with
    | some e => (t, some e)
    | none =>
      if above && tail == "." then (t, none)
      else
        match t.makeDir name with
        | .ok t => (t, none)
        | .error e => if t.hasDir name then (t, none) else (t, some e)

def makeDirs (t : FileTree) (name : String) : Except FileError FileTree :=
  match makeDirsWithin (name.length + 1) t name with
  | (t, none) => .ok t
  | (_, some e) => .error e

def files (t : FileTree) : List (Path × String) :=
  t.entries.filterMap fun (p, n) => match n with
    | .file content => some (p, content)
    | .directory => none

def topNames (t : FileTree) : List String :=
  t.entries.filterMap fun (p, _) => match p with
    | [name] => some name
    | _ => none

@[simp] theorem node?_nil (t : FileTree) : t.node? [] = some .directory := by simp [node?]

end FileTree

end Clausification
