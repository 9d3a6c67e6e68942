import Clausification.Failure
import Clausification.Token.Scan

/-!
# Reading a formula from tokens

An operator-precedence reader with one token of lookahead. From loosest to tightest: equivalence,
implication, disjunction, conjunction, and then negations, quantifiers, groups and atoms. The first
two group to the right, the next two to the left. Finished operands and pending operators lie on
two stacks, so the depth of a formula costs no call stack.
-/

namespace Clausification.Reader

/-- How tightly a connective binds, the loosest first. -/
def strength : Connective → Nat
  | .iff => 1
  | .implies => 2
  | .or => 3
  | .and => 4

def groupsRight : Connective → Bool
  | .iff | .implies => true
  | .or | .and => false

/-- Whether a pending connective has to wait when `incoming` comes next. -/
def waitsFor (pending incoming : Connective) : Bool :=
  strength pending < strength incoming
    || (strength pending == strength incoming && groupsRight incoming)

inductive Pending where
  | not
  | binder (q : Quantifier) (names : List String)
  | binary (c : Connective)
  | opening
deriving DecidableEq

/-- A formula under quantifiers of one kind, the first name outermost. -/
def bindAll (q : Quantifier) (names : List String) (f : Formula) : Formula :=
  names.foldr (Formula.quant q) f

/-- The two stacks, tops first: what is pending, and the operands so far. -/
structure Stacks where
  pending : List Pending := []
  operands : List Formula := []

namespace Stacks

def push (p : Pending) (s : Stacks) : Stacks := { s with pending := p :: s.pending }

def pushOperand (f : Formula) (s : Stacks) : Stacks := { s with operands := f :: s.operands }

/-- Negations and quantifiers apply to the operand just completed. There is no result if an operand
is missing. -/
def closePrefixes : List Pending → List Formula → Option Stacks
  | .not :: ps, f :: fs => closePrefixes ps (.not f :: fs)
  | .binder q names :: ps, f :: fs => closePrefixes ps (bindAll q names f :: fs)
  | .not :: _, [] | .binder .. :: _, [] => none
  | ps, fs => some ⟨ps, fs⟩

/-- Apply the pending connectives down to one that has to wait, or to an open group. There is no
result if an operand is missing. -/
def reduce (waits : Connective → Bool) : List Pending → List Formula → Option Stacks
  | .binary c :: ps, fs =>
    if waits c then some ⟨.binary c :: ps, fs⟩
    else
      match fs with
      | right :: left :: fs => reduce waits ps (.binary c left right :: fs)
      | _ => none
  | ps, fs => some ⟨ps, fs⟩

def reduceGroup (s : Stacks) : Option Stacks := reduce (fun _ => false) s.pending s.operands

def reduceFor (incoming : Connective) (s : Stacks) : Option Stacks :=
  (reduce (waitsFor · incoming) s.pending s.operands).map (push (.binary incoming))

def closeGroup (s : Stacks) : Option Stacks :=
  match s.reduceGroup with
  | some ⟨.opening :: ps, fs⟩ => some ⟨ps, fs⟩
  | _ => none

end Stacks

def closesAfterNames : List Token → Bool
  | ⟨.ident, _, _⟩ :: ⟨.closing, _, _⟩ :: _ => true
  | ⟨.ident, _, _⟩ :: ⟨.comma, _, _⟩ :: ts => closesAfterNames ts
  | _ => false

def startsArguments : List Token → Bool
  | ⟨.opening, _, _⟩ :: ⟨.closing, _, _⟩ :: _ => true
  | ⟨.opening, _, _⟩ :: ts => closesAfterNames ts
  | _ => false

/-- Whether no formula can begin with the tokens because an operand has just ended there. -/
def endsOperand : List Token → Bool
  | [] => true
  | ⟨.binary _, _, _⟩ :: _ | ⟨.closing, _, _⟩ :: _ | ⟨.comma, _, _⟩ :: _ => true
  | _ => false

def variableRun : List Token → List Token × List Token
  | [] => ([], [])
  | t :: ts =>
    if t.kind = .ident ∧ startsArguments ts = false then
      let (run, rest) := variableRun ts
      (t :: run, rest)
    else ([], t :: ts)

/-- The last name of a run goes back to the tokens if otherwise no body would follow. -/
def handBack (run rest : List Token) : List Token × List Token :=
  match run.getLast? with
  | some t => if endsOperand rest then (run.dropLast, t :: rest) else (run, rest)
  | none => (run, rest)

def skipDot : List Token → List Token
  | ⟨.dot, _, _⟩ :: ts => ts
  | ts => ts

def binderNames (text : String) : List Token → Except Fault (List String × List Token)
  | ⟨.ident, x, _⟩ :: ts =>
    let (run, rest) := variableRun ts
    let (run, rest) := handBack run rest
    .ok (x :: run.map (·.text), skipDot rest)
  | ts => .error ⟨.variableAfter text, ts⟩

def arguments (expected : Expectation) : List Token → Except Fault (List Term × List Token)
  | ⟨.ident, x, _⟩ :: ⟨.closing, _, _⟩ :: ts => .ok ([.var x], ts)
  | ⟨.ident, x, _⟩ :: ⟨.comma, _, _⟩ :: ts =>
    (arguments .argument ts).map fun (args, rest) => (.var x :: args, rest)
  | ⟨.ident, _, _⟩ :: ts => .error ⟨.commaOrClosing, ts⟩
  | ts => .error ⟨expected, ts⟩

def atomAfter (predicate : String) : List Token → Except Fault (Atom × List Token)
  | ⟨.opening, _, _⟩ :: ⟨.closing, _, _⟩ :: ts => .ok (⟨predicate, []⟩, ts)
  | ⟨.opening, _, _⟩ :: ts =>
    (arguments .argumentOrClosing ts).map fun (args, rest) => (⟨predicate, args⟩, rest)
  | ts => .ok (⟨predicate, []⟩, ts)

theorem variableRun_length (ts : List Token) :
    (variableRun ts).1.length + (variableRun ts).2.length = ts.length := by
  induction ts with
  | nil => rfl
  | cons t ts ih =>
    rw [variableRun]
    split
    · simp only [List.length_cons]; omega
    · simp

theorem handBack_length (run rest : List Token) :
    (handBack run rest).1.length + (handBack run rest).2.length = run.length + rest.length := by
  unfold handBack
  split
  · rename_i t ht
    have : run ≠ [] := by intro h; simp [h] at ht
    have := List.length_pos_iff.mpr this
    split
    · simp only [List.length_dropLast, List.length_cons]; omega
    · rfl
  · rfl

theorem skipDot_length_le (ts : List Token) : (skipDot ts).length ≤ ts.length := by
  unfold skipDot
  split <;> simp

theorem binderNames_length {text : String} {ts rest : List Token} {names : List String}
    (h : binderNames text ts = .ok (names, rest)) : rest.length < ts.length := by
  unfold binderNames at h
  split at h
  · rename_i x o us
    simp only [Except.ok.injEq, Prod.mk.injEq] at h
    have h1 := variableRun_length us
    have h2 := handBack_length (variableRun us).1 (variableRun us).2
    have h3 := skipDot_length_le (handBack (variableRun us).1 (variableRun us).2).2
    simp only [← h.2, List.length_cons]
    omega
  · cases h

theorem arguments_length {expected : Expectation} {ts rest : List Token} {args : List Term}
    (h : arguments expected ts = .ok (args, rest)) : rest.length < ts.length := by
  fun_induction arguments expected ts generalizing args rest with
  | case1 =>
    simp only [Except.ok.injEq, Prod.mk.injEq] at h
    simp only [← h.2, List.length_cons]
    omega
  | case2 expected x _ _ _ us ih =>
    cases hu : arguments .argument us with
    | error e => simp [hu, Except.map] at h
    | ok p =>
      simp only [hu, Except.map, Except.ok.injEq, Prod.mk.injEq] at h
      have := ih hu
      simp only [← h.2, List.length_cons]
      omega
  | case3 => cases h
  | case4 => cases h

theorem atomAfter_length {predicate : String} {ts rest : List Token} {a : Atom}
    (h : atomAfter predicate ts = .ok (a, rest)) : rest.length ≤ ts.length := by
  unfold atomAfter at h
  split at h
  · simp only [Except.ok.injEq, Prod.mk.injEq] at h
    simp only [← h.2, List.length_cons]
    omega
  · rename_i us _
    cases hu : arguments .argumentOrClosing us with
    | error e => simp [hu, Except.map] at h
    | ok p =>
      simp only [hu, Except.map, Except.ok.injEq, Prod.mk.injEq] at h
      have := arguments_length hu
      simp only [← h.2, List.length_cons]
      omega
  · simp only [Except.ok.injEq, Prod.mk.injEq] at h
    exact h.2 ▸ Nat.le_refl _

mutual

/-- Read on where an operand must begin: any number of prefixes and openings, then an atom. `depth`
counts the open groups. -/
def readOperand (depth : Nat) (s : Stacks) (ts : List Token) :
    Except Fault (Formula × List Token) :=
  match ts with
  | ⟨.not, _, _⟩ :: rest => readOperand depth (s.push .not) rest
  | ⟨.quant q, text, _⟩ :: rest =>
    match _h : binderNames text rest with
    | .ok (names, rest') => readOperand depth (s.push (.binder q names)) rest'
    | .error e => .error e
  | ⟨.opening, _, _⟩ :: rest => readOperand (depth + 1) (s.push .opening) rest
  | ⟨.ident, predicate, _⟩ :: rest =>
    match _h : atomAfter predicate rest with
    | .ok (a, rest') => readOperator depth (s.pushOperand (.atom a)) rest'
    | .error e => .error e
  | ts => .error ⟨.formula, ts⟩
termination_by ts.length
decreasing_by
  · simp
  · have := binderNames_length _h; simp only [List.length_cons]; omega
  · simp
  · have := atomAfter_length _h; simp only [List.length_cons]; omega

def readOperator (depth : Nat) (s : Stacks) (ts : List Token) :
    Except Fault (Formula × List Token) :=
  match Stacks.closePrefixes s.pending s.operands with
  | none => .error ⟨.operand, ts⟩
  | some s =>
    match depth, ts with
    | depth, ⟨.binary c, _, _⟩ :: rest =>
      match s.reduceFor c with
      | some s => readOperand depth s rest
      | none => .error ⟨.operand, ts⟩
    | depth + 1, ⟨.closing, _, _⟩ :: rest =>
      match s.closeGroup with
      | some s => readOperator depth s rest
      | none => .error ⟨.operand, ts⟩
    | _ + 1, ts => .error ⟨.closing, ts⟩
    | 0, ts =>
      match s.reduceGroup with
      | some ⟨_, f :: _⟩ => .ok (f, ts)
      | _ => .error ⟨.operand, ts⟩
termination_by ts.length
decreasing_by
  · simp
  · simp

end

/-- Read one formula, stopping before the first token that cannot continue it. -/
def readFormula (ts : List Token) : Except Fault (Formula × List Token) := readOperand 0 {} ts

def readAll (ts : List Token) : Except Fault Formula :=
  match readFormula ts with
  | .ok (f, []) => .ok f
  | .ok (_, rest) => .error ⟨.endOfInput, rest⟩
  | .error e => .error e

end Clausification.Reader

namespace Clausification

/-- The formula that a text spells, with the characters passed over. The second part is there even
if the tokens make no formula. -/
def Formula.parseWithSkips (strict : Bool) (s : String) :
    Except Failure Formula × List Unrecognized :=
  match scan strict s with
  | .ok scanned => ((Reader.readAll scanned.tokens).mapError .unexpected, scanned.skips)
  | .error u => (.error (.unrecognized u), [])

def Formula.parse (strict : Bool) (s : String) : Except Failure Formula :=
  (Formula.parseWithSkips strict s).1

end Clausification
