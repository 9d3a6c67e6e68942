import Clausification.Token.Basic
import Clausification.Text.Blank

/-!
# Recognizers

The spellings of the tokens. A recognizer tells how many characters of a text, counted from its
beginning, belong to one token. The recognizers are tried in a fixed order and the first that
accepts wins.
-/

namespace Clausification

def isWordChar (c : Char) : Bool := c.isAlphanum || c == '_'

def isWordStart (c : Char) : Bool := c.isAlpha || c == '_'

inductive Spelling where
  /-- A backslash and a control word, which ends at the first character that is no letter. -/
  | command (word : String)
  /-- A keyword, which ends at the first character that continues no identifier. -/
  | keyword (word : String)
  | sign (text : String)
deriving DecidableEq

namespace Spelling

def chars : Spelling → List Char
  | command w => '\\' :: w.toList
  | keyword w => w.toList
  | sign s => s.toList

def endsBefore : Spelling → List Char → Bool
  | command _, c :: _ => !c.isAlpha
  | keyword _, c :: _ => !isWordChar c
  | _, _ => true

def matchLength (s : Spelling) (cs : List Char) : Option Nat :=
  if s.chars.isPrefixOf cs && s.endsBefore (cs.drop s.chars.length) then
    some s.chars.length
  else
    none

end Spelling

/-- Something a text can begin with: blanks, a token with fixed spellings, or an identifier. -/
inductive Recognizer where
  | blanks
  | spelled (kind : TokenKind) (spellings : List Spelling)
  | identifier
deriving DecidableEq

namespace Recognizer

def kind : Recognizer → Option TokenKind
  | blanks => none
  | spelled k _ => some k
  | identifier => some .ident

/-- The number of characters that a recognizer accepts at the beginning of a text. Of several
spellings the first that fits counts. -/
def matchLength : Recognizer → List Char → Option Nat
  | blanks, cs =>
    match cs.takeWhile Text.isBlank with
    | [] => none
    | ws => some ws.length
  | spelled _ spellings, cs => spellings.findSome? (·.matchLength cs)
  | identifier, [] => none
  | identifier, c :: cs =>
    if isWordStart c then some ((cs.takeWhile isWordChar).length + 1) else none

end Recognizer

/-- All recognizers, in the order in which they are tried. -/
def recognizers : List Recognizer := [
  .blanks,
  .spelled (.quant .all) [.command "forall", .sign "∀", .keyword "forall"],
  .spelled (.quant .ex) [.command "exists", .sign "∃", .keyword "exists"],
  .spelled .not [.command "neg", .command "lnot", .sign "¬", .sign "~", .sign "!", .keyword "not"],
  .spelled (.binary .and) [.command "land", .command "wedge", .sign "∧", .sign "&", .keyword "and"],
  .spelled (.binary .or) [.command "lor", .command "vee", .sign "∨", .sign "|", .keyword "or"],
  .spelled (.binary .implies) [.command "rightarrow", .command "to", .sign "→", .sign "->"],
  .spelled (.binary .iff) [.command "leftrightarrow", .sign "↔", .sign "<->", .sign "<=>"],
  .spelled .opening [.sign "("],
  .spelled .closing [.sign ")"],
  .spelled .comma [.sign ","],
  .spelled .dot [.sign "."],
  .identifier]

def firstMatch (cs : List Char) : Option (Recognizer × Nat) :=
  recognizers.findSome? fun r => (r.matchLength cs).map (r, ·)

@[simp] theorem Recognizer.matchLength_identifier_nil : identifier.matchLength [] = none := rfl

@[simp] theorem Recognizer.matchLength_blanks_nil : blanks.matchLength [] = none := rfl

end Clausification
