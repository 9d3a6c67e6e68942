import Clausification.Text.Quoted

/-!
# Loose texts

Texts as they come in through escapes. A half of a surrogate pair may stand in them by itself, which
has no encoding, so that such a text can be looked at but never written as it is.
-/

namespace Clausification

/-- A half of a surrogate pair, counted from the first one. -/
abbrev Half := Fin 0x800

namespace Half

def code (h : Half) : Nat := 0xd800 + h

def ofCode (n : Nat) : Half := Fin.ofNat 0x800 (n - 0xd800)

end Half

inductive Point where
  | char (c : Char)
  | half (h : Half)
deriving DecidableEq, Inhabited

namespace Point

def code : Point → Nat
  | char c => c.toNat
  | half h => h.code

def char? : Point → Option Char
  | char c => some c
  | half _ => none

def legible : Point → Char
  | char c => c
  | half _ => '\ufffd'

def quoted (quote : Char) : Point → List Char
  | char c => Text.quotedChar quote c
  | half h => '\\' :: 'u' :: Text.hexPadded 4 h.code

end Point

/-- A text, which is torn where the first half stands, if there is one. -/
inductive LooseText where
  | text (s : String)
  | torn (before : String) (half : Half) (behind : List Point)
deriving DecidableEq, Inhabited

instance : Coe String LooseText := ⟨.text⟩

namespace LooseText

def points : LooseText → List Point
  | text s => s.toList.map .char
  | torn before half behind => before.toList.map .char ++ .half half :: behind

def untorn : List Point → List Char × List Point
  | .char c :: ps =>
    let (cs, rest) := untorn ps
    (c :: cs, rest)
  | ps => ([], ps)

def ofPoints (ps : List Point) : LooseText :=
  match untorn ps with
  | (cs, .half h :: behind) => torn (String.ofList cs) h behind
  | (cs, _) => text (String.ofList cs)

def text? : LooseText → Option String
  | text s => some s
  | torn .. => none

def isEmpty : LooseText → Bool
  | text s => s.isEmpty
  | torn .. => false

def legible (t : LooseText) : String := String.ofList (t.points.map Point.legible)

def quoted (t : LooseText) : String :=
  let q := Text.quoteFor (t.points.filterMap Point.char?)
  String.ofList (q :: t.points.flatMap (Point.quoted q) ++ [q])

def less (t u : LooseText) : Bool := t.points.map Point.code < u.points.map Point.code

theorem untorn_append (cs : List Char) (ps : List Point) :
    untorn (cs.map .char ++ ps) = (cs ++ (untorn ps).1, (untorn ps).2) := by
  induction cs with
  | nil => rfl
  | cons c cs ih => simp [untorn, ih]

theorem ofPoints_chars (cs : List Char) : ofPoints (cs.map .char) = text (String.ofList cs) := by
  have huntorn := untorn_append cs []
  rw [List.append_nil] at huntorn
  simp [ofPoints, huntorn, untorn]

end LooseText

end Clausification
