import Clausification.Number.Shortest
import Clausification.Text.Loose

/-!
# JSON values and their text

Values with the members of an object in order, in two written forms: an indented one for files, in
which every character that may stand for itself does, and a compact one in ASCII only. A torn string
has the second form alone: the first one breaks off where such a string would stand.
-/

namespace Clausification

/-- A JSON value. A number with a fraction or an exponent is of fixed precision. -/
inductive Json where
  | null
  | bool (b : Bool)
  | int (n : Int)
  | real (x : Binary64)
  | loose (s : LooseText)
  | array (items : List Json)
  | object (members : List (LooseText × Json))
deriving Inhabited

namespace Json

@[match_pattern] abbrev string (s : String) : Json := loose (.text s)

def get? (name : String) : Json → Option Json
  | object members => members.lookup (.text name)
  | _ => none

/-- A value taken as a switch: what is zero or empty is off, all else on, and null is left open. -/
def switch? : Json → Option Bool
  | null => none
  | bool b => some b
  | int n => some (n ≠ 0)
  | real x => some !x.isZero
  | loose s => some !s.isEmpty
  | array items => some !items.isEmpty
  | object members => some !members.isEmpty

def members? : Json → Option (List (LooseText × Json))
  | object members => some members
  | _ => none

def scalarText? : Json → Option String
  | null => some "None"
  | bool true => some "True"
  | bool false => some "False"
  | int n => some (toString n)
  | real x => some (x.text "inf" "nan")
  | loose s => some s.quoted
  | array _ | object _ => none

def ofOption {α : Type} (f : α → Json) : Option α → Json
  | some a => f a
  | none => null

/-- A member set to a value. A new name goes to the end, a known one keeps its place. -/
def setMember (members : List (LooseText × Json)) (name : LooseText) (value : Json) :
    List (LooseText × Json) :=
  if members.any (·.1 = name) then
    members.map fun m => if m.1 = name then (name, value) else m
  else
    members ++ [(name, value)]

def shortEscape (c : Char) : Option (List Char) :=
  if c = '"' ∨ c = '\\' then some ['\\', c]
  else if c = '\n' then some ['\\', 'n']
  else if c = '\r' then some ['\\', 'r']
  else if c = '\t' then some ['\\', 't']
  else if c = '\x08' then some ['\\', 'b']
  else if c = '\x0c' then some ['\\', 'f']
  else none

def unitEscape (n : Nat) : List Char := '\\' :: 'u' :: Text.hexPadded 4 n

def plainChar (c : Char) : List Char :=
  match shortEscape c with
  | some cs => cs
  | none => if c.toNat < 0x20 then unitEscape c.toNat else [c]

/-- A character of a string in printable ASCII. A character beyond sixteen bits takes two units. -/
def asciiChar (c : Char) : List Char :=
  match shortEscape c with
  | some cs => cs
  | none =>
    let n := c.toNat
    if n < 0x20 then unitEscape n
    else if n < 0x7f then [c]
    else if n < 0x10000 then unitEscape n
    else unitEscape (0xd800 + (n - 0x10000) / 0x400) ++ unitEscape (0xdc00 + (n - 0x10000) % 0x400)

def asciiPoint : Point → List Char
  | .char c => asciiChar c
  | .half h => unitEscape h.code

def quotedWith {α : Type} (form : α → List Char) (ps : List α) : String :=
  String.ofList ('"' :: ps.flatMap form ++ ['"'])

def indentation (depth : Nat) : String := "\n" ++ String.ofList (List.replicate (2 * depth) ' ')

def realText (x : Binary64) : String := x.text "Infinity" "NaN"

/-- What has been written piece by piece: the whole, or all pieces before the first that could not
be. -/
structure Written where
  text : String
  whole : Bool := true
deriving DecidableEq, Inhabited

namespace Written

instance : Coe String Written := ⟨fun s => { text := s }⟩

def brokenOff : Written := { text := "", whole := false }

/-- Nothing follows what has been broken off. -/
instance : Append Written where
  append a b := if a.whole then { b with text := a.text ++ b.text } else a

theorem append_def (a b : Written) :
    a ++ b = if a.whole then { b with text := a.text ++ b.text } else a := rfl

@[simp] theorem whole_append (a b : Written) : (a ++ b).whole = (a.whole && b.whole) := by
  cases h : a.whole <;> simp [append_def, h]

@[simp] theorem text_append {a : Written} (h : a.whole) (b : Written) :
    (a ++ b).text = a.text ++ b.text := by
  simp [append_def, h]

end Written

def literal : LooseText → Written
  | .text s => quotedWith plainChar s.toList
  | .torn .. => .brokenOff

mutual

def writtenAt (depth : Nat) : Json → Written
  | null => "null"
  | bool true => "true"
  | bool false => "false"
  | int n => toString n
  | real x => realText x
  | loose s => literal s
  | array [] => "[]"
  | array (v :: items) =>
    writtenItems (depth + 1) ("[" ++ indentation (depth + 1)) (v :: items)
      ++ (indentation depth ++ "]")
  | object [] => "\x7b\x7d"
  | object (m :: members) =>
    writtenMembers (depth + 1) ("\x7b" ++ indentation (depth + 1)) (m :: members)
      ++ (indentation depth ++ "\x7d")

/-- Items, each behind what leads to it. A string is one piece with its lead. -/
def writtenItems (depth : Nat) (lead : String) : List Json → Written
  | [] => ""
  | loose (.torn ..) :: _ => .brokenOff
  | v :: items => lead ++ writtenAt depth v ++ writtenItems depth ("," ++ indentation depth) items

def writtenMembers (depth : Nat) (lead : String) : List (LooseText × Json) → Written
  | [] => ""
  | (name, v) :: members =>
    lead ++ literal name ++ ": " ++ writtenAt depth v
      ++ writtenMembers depth ("," ++ indentation depth) members

end

def written (v : Json) : Written := writtenAt 0 v

/-- The indented form of a value, as far as it can be written. -/
def pretty (v : Json) : String := v.written.text

mutual

def compact : Json → String
  | null => "null"
  | bool true => "true"
  | bool false => "false"
  | int n => toString n
  | real x => realText x
  | loose s => quotedWith asciiPoint s.points
  | array items => "[" ++ ", ".intercalate (compactItems items) ++ "]"
  | object members => "\x7b" ++ ", ".intercalate (compactMembers members) ++ "\x7d"

def compactItems : List Json → List String
  | [] => []
  | v :: items => compact v :: compactItems items

def compactMembers : List (LooseText × Json) → List String
  | [] => []
  | (name, v) :: members =>
    (quotedWith asciiPoint name.points ++ ": " ++ compact v) :: compactMembers members

end

end Json

end Clausification
