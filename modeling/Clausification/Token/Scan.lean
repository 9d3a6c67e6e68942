import Clausification.Token.Recognizer

/-!
# Scanning

A text becomes a list of tokens. A character that begins no token is passed over and reported, or,
when scanning is strict, stops the scan.
-/

namespace Clausification

structure Scan where
  tokens : List Token := []
  skips : List Unrecognized := []
deriving DecidableEq, Inhabited

namespace Scan

def addToken (t : Token) (s : Scan) : Scan := { s with tokens := t :: s.tokens }

def addSkip (u : Unrecognized) (s : Scan) : Scan := { s with skips := u :: s.skips }

@[simp] theorem tokens_addToken (t : Token) (s : Scan) :
    (s.addToken t).tokens = t :: s.tokens := rfl

@[simp] theorem skips_addToken (t : Token) (s : Scan) : (s.addToken t).skips = s.skips := rfl

@[simp] theorem tokens_addSkip (u : Unrecognized) (s : Scan) :
    (s.addSkip u).tokens = s.tokens := rfl

@[simp] theorem skips_addSkip (u : Unrecognized) (s : Scan) :
    (s.addSkip u).skips = u :: s.skips := rfl

end Scan

/-- The text that is scanned: the dollar signs that delimit mathematics count as spaces, and the
blanks at both ends are dropped. Offsets refer to this text. -/
def prepareList (cs : List Char) : List Char :=
  Text.stripList (cs.map fun c => if c = '$' then ' ' else c)

def prepare (s : String) : String := String.ofList (prepareList s.toList)

/-- Scan the characters that remain, the first of which stands at `offset`. -/
def scanFrom (strict : Bool) (offset : Nat) : List Char → Except Unrecognized Scan
  | [] => .ok {}
  | c :: cs =>
    match firstMatch (c :: cs) with
    | some (r, n) =>
      let rest := scanFrom strict (offset + n) (cs.drop (n - 1))
      match r.kind with
      | some kind => rest.map (·.addToken ⟨kind, String.ofList ((c :: cs).take n), offset⟩)
      | none => rest
    | none =>
      if strict then .error ⟨c, offset⟩
      else (scanFrom strict (offset + 1) cs).map (·.addSkip ⟨c, offset⟩)
termination_by cs => cs.length
decreasing_by
  all_goals simp only [List.length_drop, List.length_cons]; omega

def scan (strict : Bool) (s : String) : Except Unrecognized Scan :=
  scanFrom strict 0 (prepareList s.toList)

@[simp] theorem scanFrom_nil (strict : Bool) (offset : Nat) :
    scanFrom strict offset [] = .ok {} := by
  simp [scanFrom]

end Clausification
