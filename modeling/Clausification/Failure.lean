import Clausification.Obstacle
import Clausification.Token.Basic

/-!
# Failures

Why a text does not become clauses: a character that no token begins with, a fault in the order of
the tokens, or an obstacle met by a transformation.
-/

namespace Clausification

inductive Expectation where
  | formula
  | variableAfter (quantifier : String)
  | argumentOrClosing
  | argument
  | commaOrClosing
  | closing
  | endOfInput
  | operand
deriving DecidableEq, Inhabited

def Expectation.name : Expectation → String
  | formula | operand => "formula"
  | variableAfter _ | argument => "IDENT"
  | argumentOrClosing => "IDENT or RPAREN"
  | commaOrClosing => "COMMA or RPAREN"
  | closing => "RPAREN"
  | endOfInput => "end of input"

/-- A fault in the order of the tokens: what was expected, and the tokens from the blamed one on,
none of them if the end of the input is to blame. -/
structure Fault where
  expected : Expectation
  rest : List Token
deriving DecidableEq, Inhabited

namespace Fault

def blamed (e : Fault) : Option Token := e.rest.head?

def found (e : Fault) : String :=
  match e.blamed with
  | some t => t.kind.name
  | none => "end of input"

def offset (e : Fault) : Option Nat := e.blamed.map (·.offset)

def detail (e : Fault) : Option String :=
  match e.expected with
  | .variableAfter q => some ("bound variable after " ++ q)
  | .endOfInput => some ("trailing tokens: " ++ " ".intercalate (e.rest.map (·.text)))
  | _ => none

def message (e : Fault) : String :=
  "expected " ++ e.expected.name ++ ", found " ++ e.found
    ++ (match e.offset with
        | some n => " at offset " ++ toString n
        | none => "")
    ++ (match e.detail with
        | some d => " (" ++ d ++ ")"
        | none => "")

end Fault

inductive Failure where
  | unrecognized (u : Unrecognized)
  | unexpected (e : Fault)
  | obstructed (o : Obstacle)
deriving DecidableEq, Inhabited

def Failure.message : Failure → String
  | unrecognized u => u.message
  | unexpected e => e.message
  | obstructed o => o.message

end Clausification
