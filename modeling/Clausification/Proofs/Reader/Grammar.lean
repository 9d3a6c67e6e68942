import Clausification.Formula.Reader
import Clausification.Proofs.Result

/-!
# The grammar of formulas

A reader by recursive descent, one rule for each layer of the grammar:

    equivalence ::= implication | implication IFF equivalence
    implication ::= disjunction | disjunction IMPLIES implication
    disjunction ::= conjunction | disjunction OR conjunction
    conjunction ::= unary | conjunction AND unary
    unary ::= NOT unary | binder unary | LPAREN equivalence RPAREN | atom
    atom ::= IDENT | IDENT LPAREN RPAREN | IDENT LPAREN IDENT {COMMA IDENT} RPAREN

The two rules that are left-recursive are read as loops. How many of the names behind a quantifier
are variables is up to `binderNames`.
-/

namespace Clausification.Reader

namespace Grammar

/-- A formula, and the tokens behind it, fewer than some number. -/
structure Parsed (n : Nat) where
  formula : Formula
  rest : List Token
  lt : rest.length < n

namespace Parsed

theorem tail_lt {n : Nat} (p : Parsed n) {t : Token} {ts : List Token} (h : p.rest = t :: ts) :
    ts.length < n := by
  have := p.lt
  rw [h, List.length_cons] at this
  omega

/-- A formula made from one that was read further on. -/
def under {m n : Nat} (f : Formula → Formula) (p : Parsed m) (h : m < n) : Parsed n :=
  ⟨f p.formula, p.rest, Nat.lt_trans p.lt h⟩

end Parsed

/-- Arguments behind the first one. -/
def moreArguments : List Token → Except Fault (List Term × List Token)
  | ⟨.comma, _, _⟩ :: ⟨.ident, x, _⟩ :: ts =>
    (moreArguments ts).map fun (args, rest) => (.var x :: args, rest)
  | ⟨.comma, _, _⟩ :: ts => .error ⟨.argument, ts⟩
  | ⟨.closing, _, _⟩ :: ts => .ok ([], ts)
  | ts => .error ⟨.commaOrClosing, ts⟩

/-- An atom behind its predicate. -/
def atom (predicate : String) : List Token → Except Fault (Atom × List Token)
  | ⟨.opening, _, _⟩ :: ⟨.closing, _, _⟩ :: ts => .ok (⟨predicate, []⟩, ts)
  | ⟨.opening, _, _⟩ :: ⟨.ident, x, _⟩ :: ts =>
    (moreArguments ts).map fun (args, rest) => (⟨predicate, .var x :: args⟩, rest)
  | ⟨.opening, _, _⟩ :: ts => .error ⟨.argumentOrClosing, ts⟩
  | ts => .ok (⟨predicate, []⟩, ts)

theorem arguments_of_kind_ne {expected : Expectation} {t : Token} {ts : List Token}
    (h : t.kind ≠ .ident) : arguments expected (t :: ts) = .error ⟨expected, t :: ts⟩ := by
  obtain ⟨k, x, o⟩ := t
  cases k <;> first | rfl | exact absurd rfl h

theorem arguments_ident (expected : Expectation) (x : String) (o : Nat) (ts : List Token) :
    arguments expected (⟨.ident, x, o⟩ :: ts) =
      (moreArguments ts).map fun (args, rest) => (.var x :: args, rest) := by
  fun_induction moreArguments ts generalizing expected x o with
  | case1 _ _ y _ ts ih =>
    rw [arguments, ih]
  | case2 _ _ ts hident =>
    cases ts with
    | nil => rfl
    | cons t ts =>
      have hkind : t.kind ≠ .ident := fun h => hident t.text t.offset ts (by rw [← h])
      rw [arguments, arguments_of_kind_ne hkind]
  | case3 => rfl
  | case4 ts _ hcomma hclosing =>
    rcases ts with _ | ⟨⟨k, y, o'⟩, ts⟩
    · rfl
    · cases k
      case comma => exact absurd rfl (hcomma _ _ _)
      case closing => exact absurd rfl (hclosing _ _ _)
      all_goals rfl

theorem atomAfter_eq (predicate : String) (ts : List Token) :
    atomAfter predicate ts = atom predicate ts := by
  fun_cases atom predicate ts with
  | case1 => rfl
  | case2 _ _ x o ts =>
    rw [atomAfter, arguments_ident]
    · cases moreArguments ts <;> rfl
    · simp
  | case3 _ _ ts hclosing hident =>
    cases ts with
    | nil => rfl
    | cons t ts =>
      have hkind : t.kind ≠ .ident := fun h => hident t.text t.offset ts (by rw [← h])
      rw [atomAfter, arguments_of_kind_ne hkind]
      · rfl
      · exact hclosing
  | case4 ts _ _ hopening =>
    rcases ts with _ | ⟨⟨k, y, o'⟩, ts⟩
    · rfl
    · cases k
      case opening => exact absurd rfl (hopening _ _ _)
      all_goals rfl

theorem variableRun_append (ts : List Token) : (variableRun ts).1 ++ (variableRun ts).2 = ts := by
  induction ts with
  | nil => rfl
  | cons t ts ih =>
    rw [variableRun]
    split
    · exact congrArg (t :: ·) ih
    · rfl

theorem handBack_append (run rest : List Token) :
    (handBack run rest).1 ++ (handBack run rest).2 = run ++ rest := by
  unfold handBack
  split
  · rename_i t ht
    obtain ⟨names, rfl⟩ := List.getLast?_eq_some_iff.mp ht
    split <;> simp
  · rfl

theorem skipDot_suffix (ts : List Token) : skipDot ts <:+ ts := by
  unfold skipDot
  split
  · exact List.suffix_cons _ _
  · exact List.suffix_refl _

theorem binderNames_suffix {text : String} {ts rest : List Token} {names : List String}
    (h : binderNames text ts = .ok (names, rest)) : rest <:+ ts := by
  unfold binderNames at h
  split at h
  · rename_i x o us
    obtain ⟨-, rfl⟩ := Prod.mk.inj (Except.ok.inj h)
    have hback : (handBack (variableRun us).1 (variableRun us).2).2 <:+ us :=
      ⟨_, (handBack_append _ _).trans (variableRun_append us)⟩
    exact ((skipDot_suffix _).trans hback).trans (List.suffix_cons _ _)
  · cases h

theorem binderNames_error {text : String} {ts : List Token} {e : Fault}
    (h : binderNames text ts = .error e) : e = ⟨.variableAfter text, ts⟩ := by
  unfold binderNames at h
  split at h
  · cases h
  · exact (Except.error.inj h).symm

theorem moreArguments_suffix {ts rest : List Token} {args : List Term}
    (h : moreArguments ts = .ok (args, rest)) : rest <:+ ts := by
  fun_induction moreArguments ts generalizing args with
  | case1 _ _ x _ ts ih =>
    obtain ⟨p, hmore, heq⟩ := map_eq_ok.mp h
    obtain ⟨-, rfl⟩ := Prod.mk.inj heq
    exact ((ih hmore).trans (List.suffix_cons _ _)).trans (List.suffix_cons _ _)
  | case2 => cases h
  | case3 =>
    obtain ⟨-, rfl⟩ := Prod.mk.inj (Except.ok.inj h)
    exact List.suffix_cons _ _
  | case4 => cases h

theorem moreArguments_error {ts : List Token} {e : Fault} (h : moreArguments ts = .error e) :
    e.expected ≠ .operand ∧ e.rest <:+ ts := by
  fun_induction moreArguments ts with
  | case1 _ _ x _ ts ih =>
    obtain ⟨hexpected, hrest⟩ := ih (map_eq_error.mp h)
    exact ⟨hexpected, (hrest.trans (List.suffix_cons _ _)).trans (List.suffix_cons _ _)⟩
  | case2 =>
    obtain rfl := Except.error.inj h
    exact ⟨by simp, List.suffix_cons _ _⟩
  | case3 => cases h
  | case4 =>
    obtain rfl := Except.error.inj h
    exact ⟨by simp, List.suffix_refl _⟩

theorem atom_suffix {predicate : String} {ts rest : List Token} {a : Atom}
    (h : atom predicate ts = .ok (a, rest)) : rest <:+ ts := by
  unfold atom at h
  split at h
  · obtain ⟨-, rfl⟩ := Prod.mk.inj (Except.ok.inj h)
    exact (List.suffix_cons _ _).trans (List.suffix_cons _ _)
  · rename_i ts
    obtain ⟨p, hmore, heq⟩ := map_eq_ok.mp h
    obtain ⟨-, rfl⟩ := Prod.mk.inj heq
    exact ((moreArguments_suffix hmore).trans (List.suffix_cons _ _)).trans (List.suffix_cons _ _)
  · cases h
  · obtain ⟨-, rfl⟩ := Prod.mk.inj (Except.ok.inj h)
    exact List.suffix_refl _

theorem atom_error {predicate : String} {ts : List Token} {e : Fault}
    (h : atom predicate ts = .error e) : e.expected ≠ .operand ∧ e.rest <:+ ts := by
  unfold atom at h
  split at h
  · cases h
  · rename_i ts
    obtain ⟨hexpected, hrest⟩ := moreArguments_error (map_eq_error.mp h)
    exact ⟨hexpected, (hrest.trans (List.suffix_cons _ _)).trans (List.suffix_cons _ _)⟩
  · obtain rfl := Except.error.inj h
    exact ⟨by simp, List.suffix_cons _ _⟩
  · cases h

mutual

def equivalence (ts : List Token) : Except Fault (Parsed ts.length) := do
  equivalenceBehind (← implication ts)
termination_by (ts.length, 8)
decreasing_by
  · exact Prod.Lex.right _ (by decide)
  · rename_i l
    exact Prod.Lex.left _ _ l.lt

/-- Read on behind the first operand. -/
def equivalenceBehind {n : Nat} (l : Parsed n) : Except Fault (Parsed n) :=
  match _h : l.rest with
  | ⟨.binary .iff, _, _⟩ :: rest => do
    let r ← equivalence rest
    return r.under (.iff l.formula) (l.tail_lt _h)
  | _ => return l
termination_by (l.rest.length, 7)
decreasing_by exact Prod.Lex.left _ _ (by rw [_h]; simp)

def implication (ts : List Token) : Except Fault (Parsed ts.length) := do
  implicationBehind (← disjunction ts)
termination_by (ts.length, 6)
decreasing_by
  · exact Prod.Lex.right _ (by decide)
  · rename_i l
    exact Prod.Lex.left _ _ l.lt

def implicationBehind {n : Nat} (l : Parsed n) : Except Fault (Parsed n) :=
  match _h : l.rest with
  | ⟨.binary .implies, _, _⟩ :: rest => do
    let r ← implication rest
    return r.under (.implies l.formula) (l.tail_lt _h)
  | _ => return l
termination_by (l.rest.length, 5)
decreasing_by exact Prod.Lex.left _ _ (by rw [_h]; simp)

def disjunction (ts : List Token) : Except Fault (Parsed ts.length) := do
  disjunctionBehind (← conjunction ts)
termination_by (ts.length, 4)
decreasing_by
  · exact Prod.Lex.right _ (by decide)
  · rename_i l
    exact Prod.Lex.left _ _ l.lt

/-- Read on behind the operands so far. -/
def disjunctionBehind {n : Nat} (l : Parsed n) : Except Fault (Parsed n) :=
  match _h : l.rest with
  | ⟨.binary .or, _, _⟩ :: rest => do
    let r ← conjunction rest
    disjunctionBehind (r.under (.or l.formula) (l.tail_lt _h))
  | _ => return l
termination_by (l.rest.length, 3)
decreasing_by
  · exact Prod.Lex.left _ _ (by rw [_h]; simp)
  · exact Prod.Lex.left _ _ (by rw [_h]; exact Nat.lt_succ_of_lt r.lt)

def conjunction (ts : List Token) : Except Fault (Parsed ts.length) := do
  conjunctionBehind (← unary ts)
termination_by (ts.length, 2)
decreasing_by
  · exact Prod.Lex.right _ (by decide)
  · rename_i l
    exact Prod.Lex.left _ _ l.lt

def conjunctionBehind {n : Nat} (l : Parsed n) : Except Fault (Parsed n) :=
  match _h : l.rest with
  | ⟨.binary .and, _, _⟩ :: rest => do
    let r ← unary rest
    conjunctionBehind (r.under (.and l.formula) (l.tail_lt _h))
  | _ => return l
termination_by (l.rest.length, 1)
decreasing_by
  · exact Prod.Lex.left _ _ (by rw [_h]; simp)
  · exact Prod.Lex.left _ _ (by rw [_h]; exact Nat.lt_succ_of_lt r.lt)

def unary (ts : List Token) : Except Fault (Parsed ts.length) :=
  match ts with
  | ⟨.not, _, _⟩ :: rest => do
    let f ← unary rest
    return f.under .not (Nat.lt_succ_self _)
  | ⟨.quant q, text, _⟩ :: rest =>
    match _h : binderNames text rest with
    | .ok (names, rest') => do
      let f ← unary rest'
      return f.under (bindAll q names) (Nat.lt_succ_of_lt (binderNames_length _h))
    | .error e => .error e
  | ⟨.opening, _, _⟩ :: rest => do
    let f ← equivalence rest
    match _h : f.rest with
    | ⟨.closing, _, _⟩ :: rest' => return ⟨f.formula, rest', Nat.lt_succ_of_lt (f.tail_lt _h)⟩
    | rest' => .error ⟨.closing, rest'⟩
  | ⟨.ident, predicate, _⟩ :: rest =>
    match _h : atom predicate rest with
    | .ok (a, rest') =>
      return ⟨.atom a, rest', Nat.lt_succ_of_le (atomAfter_length (atomAfter_eq predicate rest ▸ _h))⟩
    | .error e => .error e
  | ts => .error ⟨.formula, ts⟩
termination_by (ts.length, 0)
decreasing_by
  · exact Prod.Lex.left _ _ (Nat.lt_succ_self _)
  · exact Prod.Lex.left _ _ (Nat.lt_succ_of_lt (binderNames_length _h))
  · exact Prod.Lex.left _ _ (Nat.lt_succ_self _)

end

section
variable {n : Nat} (l : Parsed n) {x : String} {o : Nat} {rest : List Token}

theorem equivalenceBehind_iff (h : l.rest = ⟨.binary .iff, x, o⟩ :: rest) :
    equivalenceBehind l = equivalence rest >>= fun r =>
      .ok (r.under (.binary .iff l.formula) (l.tail_lt h)) := by
  rw [equivalenceBehind]
  split
  · rename_i h'
    cases h.symm.trans h'
    rfl
  · rename_i hne
    exact absurd h (hne _ _ _)

theorem equivalenceBehind_end (h : ∀ x o rest, l.rest ≠ ⟨.binary .iff, x, o⟩ :: rest) :
    equivalenceBehind l = .ok l := by
  rw [equivalenceBehind]
  split
  · exact absurd ‹_› (h _ _ _)
  · rfl

theorem implicationBehind_implies (h : l.rest = ⟨.binary .implies, x, o⟩ :: rest) :
    implicationBehind l = implication rest >>= fun r =>
      .ok (r.under (.binary .implies l.formula) (l.tail_lt h)) := by
  rw [implicationBehind]
  split
  · rename_i h'
    cases h.symm.trans h'
    rfl
  · rename_i hne
    exact absurd h (hne _ _ _)

theorem implicationBehind_end (h : ∀ x o rest, l.rest ≠ ⟨.binary .implies, x, o⟩ :: rest) :
    implicationBehind l = .ok l := by
  rw [implicationBehind]
  split
  · exact absurd ‹_› (h _ _ _)
  · rfl

theorem disjunctionBehind_or (h : l.rest = ⟨.binary .or, x, o⟩ :: rest) :
    disjunctionBehind l = conjunction rest >>= fun r =>
      disjunctionBehind (r.under (.binary .or l.formula) (l.tail_lt h)) := by
  rw [disjunctionBehind]
  split
  · rename_i h'
    cases h.symm.trans h'
    rfl
  · rename_i hne
    exact absurd h (hne _ _ _)

theorem disjunctionBehind_end (h : ∀ x o rest, l.rest ≠ ⟨.binary .or, x, o⟩ :: rest) :
    disjunctionBehind l = .ok l := by
  rw [disjunctionBehind]
  split
  · exact absurd ‹_› (h _ _ _)
  · rfl

theorem conjunctionBehind_and (h : l.rest = ⟨.binary .and, x, o⟩ :: rest) :
    conjunctionBehind l = unary rest >>= fun r =>
      conjunctionBehind (r.under (.binary .and l.formula) (l.tail_lt h)) := by
  rw [conjunctionBehind]
  split
  · rename_i h'
    cases h.symm.trans h'
    rfl
  · rename_i hne
    exact absurd h (hne _ _ _)

theorem conjunctionBehind_end (h : ∀ x o rest, l.rest ≠ ⟨.binary .and, x, o⟩ :: rest) :
    conjunctionBehind l = .ok l := by
  rw [conjunctionBehind]
  split
  · exact absurd ‹_› (h _ _ _)
  · rfl

end

/-- Read one formula. -/
def formula (ts : List Token) : Except Fault (Formula × List Token) :=
  (equivalence ts).map fun p => (p.formula, p.rest)

end Grammar

end Clausification.Reader
