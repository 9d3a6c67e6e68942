import Clausification.Formula.Basic
import Clausification.Text.Quoted

/-!
# Tokens

The words of a written formula, and the characters of it that belong to no word.
-/

namespace Clausification

inductive TokenKind where
  | quant (q : Quantifier)
  | not
  | binary (c : Connective)
  | opening
  | closing
  | comma
  | dot
  | ident
deriving DecidableEq, Inhabited

def TokenKind.name : TokenKind → String
  | quant .all => "FORALL"
  | quant .ex => "EXISTS"
  | not => "NOT"
  | binary .and => "AND"
  | binary .or => "OR"
  | binary .implies => "IMPLIES"
  | binary .iff => "IFF"
  | opening => "LPAREN"
  | closing => "RPAREN"
  | comma => "COMMA"
  | dot => "DOT"
  | ident => "IDENT"

structure Token where
  kind : TokenKind
  text : String
  offset : Nat := 0
deriving DecidableEq, Inhabited

structure Unrecognized where
  char : Char
  offset : Nat
deriving DecidableEq, Inhabited

namespace Unrecognized

def message (u : Unrecognized) : String :=
  "unrecognized character " ++ Text.quoted u.char.toString ++ " at offset " ++ toString u.offset

def skippedMessage (u : Unrecognized) : String := "ignored " ++ u.message

end Unrecognized

end Clausification
