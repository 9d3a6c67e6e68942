import Clausification.Json.Basic

/-!
# Reading JSON

A reader of JSON texts. Of two members of one name the later value counts, at the earlier place.
Besides the standard's numbers the words `NaN`, `Infinity` and `-Infinity` are accepted. An integer
of very many digits is refused.
-/

namespace Clausification.Json

inductive ReadError where
  | malformed
  | longInteger (digits : Nat)
deriving DecidableEq, Inhabited

def maxDigits : Nat := 4300

def ReadError.message : ReadError → String
  | malformed => "no JSON text"
  | longInteger digits =>
    "Exceeds the limit (" ++ toString maxDigits ++ " digits) for integer string conversion: "
      ++ "value has " ++ toString digits ++ " digits; "
      ++ "use sys.set_int_max_str_digits() to increase the limit"

namespace Reader

def isSpace (c : Char) : Bool := c == ' ' || c == '\t' || c == '\n' || c == '\r'

def skipSpaces (cs : List Char) : List Char := cs.dropWhile isSpace

def hexValue? (c : Char) : Option Nat :=
  if c.isDigit then some (c.toNat - 48)
  else if 'a' ≤ c ∧ c ≤ 'f' then some (c.toNat - 87)
  else if 'A' ≤ c ∧ c ≤ 'F' then some (c.toNat - 55)
  else none

def unit? : List Char → Option (Nat × List Char)
  | a :: b :: c :: d :: cs => do
    let a ← hexValue? a
    let b ← hexValue? b
    let c ← hexValue? c
    let d ← hexValue? d
    return (((a * 16 + b) * 16 + c) * 16 + d, cs)
  | _ => none

def shortEscaped? : Char → Option Char
  | '"' => some '"'
  | '\\' => some '\\'
  | '/' => some '/'
  | 'b' => some '\x08'
  | 'f' => some '\x0c'
  | 'n' => some '\n'
  | 'r' => some '\r'
  | 't' => some '\t'
  | _ => none

/-- The point of a unit, joined with a second unit if the two make a pair. -/
def unitPoint (n : Nat) (cs : List Char) : Point × List Char :=
  if 0xd800 ≤ n ∧ n < 0xdc00 then
    match cs with
    | '\\' :: 'u' :: ds =>
      match unit? ds with
      | some (m, rest) =>
        if 0xdc00 ≤ m ∧ m < 0xe000 then
          (.char (Char.ofNat (0x10000 + (n - 0xd800) * 0x400 + (m - 0xdc00))), rest)
        else (.half (.ofCode n), cs)
      | none => (.half (.ofCode n), cs)
    | _ => (.half (.ofCode n), cs)
  else if 0xdc00 ≤ n ∧ n < 0xe000 then (.half (.ofCode n), cs)
  else (.char (Char.ofNat n), cs)

/-- The rest of a string behind its opening quotation mark, with the points so far, last first. -/
def stringFrom (fuel : Nat) (done : List Point) (cs : List Char) :
    Option (LooseText × List Char) :=
  match fuel with
  | 0 => none
  | fuel + 1 =>
    match cs with
    | [] => none
    | '"' :: cs => some (.ofPoints done.reverse, cs)
    | '\\' :: 'u' :: cs =>
      match unit? cs with
      | some (n, cs) =>
        let (p, cs) := unitPoint n cs
        stringFrom fuel (p :: done) cs
      | none => none
    | '\\' :: c :: cs =>
      match shortEscaped? c with
      | some c => stringFrom fuel (.char c :: done) cs
      | none => none
    | c :: cs =>
      if c.toNat < 0x20 ∨ c = '\\' then none else stringFrom fuel (.char c :: done) cs

def digits (cs : List Char) : List Char × List Char :=
  (cs.takeWhile Char.isDigit, cs.dropWhile Char.isDigit)

def integerPart? (cs : List Char) : Option (List Char × List Char) :=
  match cs with
  | '0' :: cs => some (['0'], cs)
  | c :: _ => if c.isDigit then some (digits cs) else none
  | [] => none

def fractionPart (cs : List Char) : List Char × List Char :=
  match cs with
  | '.' :: c :: rest =>
    if c.isDigit then
      let (ds, rest) := digits (c :: rest)
      ('.' :: ds, rest)
    else ([], cs)
  | _ => ([], cs)

def exponentPart (cs : List Char) : List Char × List Char :=
  match cs with
  | e :: rest =>
    if e = 'e' ∨ e = 'E' then
      let (sign, rest) := match rest with
        | '+' :: rest => (['+'], rest)
        | '-' :: rest => (['-'], rest)
        | rest => ([], rest)
      match digits rest with
      | ([], _) => ([], cs)
      | (ds, rest) => (e :: sign ++ ds, rest)
    else ([], cs)
  | [] => ([], cs)

def natOfDigits (ds : List Char) : Nat := ds.foldl (fun n d => n * 10 + (d.toNat - 48)) 0

def exponentValue : List Char → Int
  | _ :: '-' :: ds => -(natOfDigits ds)
  | _ :: '+' :: ds => natOfDigits ds
  | _ :: ds => natOfDigits ds
  | [] => 0

/-- A number without a fraction or an exponent is an integer, of which only so many digits are taken
in. -/
def integer (negative : Bool) (whole : List Char) : Except ReadError Json :=
  if maxDigits < whole.length then .error (.longInteger whole.length)
  else
    let n : Int := natOfDigits whole
    .ok (.int (if negative then -n else n))

def number (cs : List Char) : Except ReadError (Json × List Char) :=
  let (negative, cs) := match cs with
    | '-' :: cs => (true, cs)
    | cs => (false, cs)
  match integerPart? cs with
  | none => .error .malformed
  | some (whole, cs) => do
    let (fraction, cs) := fractionPart cs
    let (exponent, cs) := exponentPart cs
    if fraction.isEmpty && exponent.isEmpty then
      return (← integer negative whole, cs)
    else
      let decimals := fraction.drop 1
      let n := natOfDigits (whole ++ decimals)
      return (.real (.ofDecimal negative n (exponentValue exponent - decimals.length)), cs)

def words : List (String × Json) := [
  ("null", .null), ("true", .bool true), ("false", .bool false), ("NaN", .real .nan),
  ("Infinity", .real (.infinite false)), ("-Infinity", .real (.infinite true))]

def word? (cs : List Char) : Option (Json × List Char) :=
  words.findSome? fun (w, v) =>
    if w.toList.isPrefixOf cs then some (v, cs.drop w.length) else none

mutual

/-- A value, white space before it excluded. The fuel bounds the number of steps. -/
def value (fuel : Nat) (cs : List Char) : Except ReadError (Json × List Char) :=
  match fuel with
  | 0 => .error .malformed
  | fuel + 1 =>
    match cs with
    | '"' :: cs =>
      match stringFrom (cs.length + 1) [] cs with
      | some (s, cs) => .ok (.loose s, cs)
      | none => .error .malformed
    | '[' :: cs =>
      match skipSpaces cs with
      | ']' :: cs => .ok (.array [], cs)
      | cs => items fuel [] cs
    | '\x7b' :: cs =>
      match skipSpaces cs with
      | '\x7d' :: cs => .ok (.object [], cs)
      | cs => members fuel [] cs
    | cs =>
      match word? cs with
      | some found => .ok found
      | none => number cs

def items (fuel : Nat) (done : List Json) (cs : List Char) :
    Except ReadError (Json × List Char) :=
  match fuel with
  | 0 => .error .malformed
  | fuel + 1 =>
    match value fuel cs with
    | .error e => .error e
    | .ok (v, cs) =>
      match skipSpaces cs with
      | ',' :: cs => items fuel (v :: done) (skipSpaces cs)
      | ']' :: cs => .ok (.array (v :: done).reverse, cs)
      | _ => .error .malformed

def members (fuel : Nat) (done : List (LooseText × Json)) (cs : List Char) :
    Except ReadError (Json × List Char) :=
  match fuel with
  | 0 => .error .malformed
  | fuel + 1 =>
    match cs with
    | '"' :: cs =>
      match stringFrom (cs.length + 1) [] cs with
      | none => .error .malformed
      | some (name, cs) =>
        match skipSpaces cs with
        | ':' :: cs =>
          match value fuel (skipSpaces cs) with
          | .error e => .error e
          | .ok (v, cs) =>
            let done := setMember done name v
            match skipSpaces cs with
            | ',' :: cs => members fuel done (skipSpaces cs)
            | '\x7d' :: cs => .ok (.object done, cs)
            | _ => .error .malformed
        | _ => .error .malformed
    | _ => .error .malformed

end

end Reader

/-- The value that a text spells, if it spells one. Every step reads a character, so the length of
the text bounds the steps. -/
def parse (s : String) : Except ReadError Json :=
  let cs := s.toList
  match Reader.value (2 * cs.length + 2) (Reader.skipSpaces cs) with
  | .error e => .error e
  | .ok (v, rest) => if (Reader.skipSpaces rest).isEmpty then .ok v else .error .malformed

end Clausification.Json
