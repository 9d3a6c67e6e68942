import Clausification.Proofs.Formula.Occurrence
import Clausification.Proofs.Reader.Names
import Clausification.Proofs.Reader.Prefixes

/-!
# Names and connectives in order

A formula that is read has the names and connectives of the tokens, in the order of the tokens. The
stacks are applied out of order, but from the bottom to the top, with each pending connective behind
its left operand, they hold what has been read so far. Opening parentheses are pending until they are
closed.
-/

namespace Clausification

/-- What is kept of the tokens, as far as it is written in order: names, negations and connectives. -/
inductive Mark where
  | name (x : String)
  | not
  | binary (c : Connective)

def Mark.name? : Mark → Option String
  | name x => some x
  | not | binary _ => none

def Mark.operator? : Mark → Option TokenKind
  | name _ => none
  | not => some .not
  | binary c => some (.binary c)

def TokenKind.isOperator : TokenKind → Bool
  | not | binary _ => true
  | _ => false

def Token.mark? : Token → Option Mark
  | ⟨.ident, x, _⟩ => some (.name x)
  | ⟨.not, _, _⟩ => some .not
  | ⟨.binary c, _, _⟩ => some (.binary c)
  | _ => none

abbrev marksOf (ts : List Token) : List Mark := ts.filterMap Token.mark?

theorem filterMap_name_marksOf (ts : List Token) :
    (marksOf ts).filterMap Mark.name? = (ts.filter (·.kind = .ident)).map (·.text) := by
  induction ts with
  | nil => rfl
  | cons t ts ih =>
    obtain ⟨k, x, o⟩ := t
    cases k <;> simp [List.filterMap_cons, Token.mark?, Mark.name?, ih]

theorem filterMap_operator_marksOf (ts : List Token) :
    (marksOf ts).filterMap Mark.operator? = (ts.map (·.kind)).filter (·.isOperator) := by
  induction ts with
  | nil => rfl
  | cons t ts ih =>
    obtain ⟨k, x, o⟩ := t
    cases k <;> simp [List.filterMap_cons, Token.mark?, Mark.operator?, TokenKind.isOperator, ih]

namespace Formula

/-- The names, negations and connectives in the order of writing, a connective between its operands. -/
def marks : Formula → List Mark
  | atom a => a.symbols.map .name
  | not f => .not :: f.marks
  | binary c l r => l.marks ++ .binary c :: r.marks
  | quant _ x f => .name x :: f.marks
  | term _ => []

def operators : Formula → List TokenKind
  | atom _ | term _ => []
  | not f => .not :: f.operators
  | binary c l r => l.operators ++ .binary c :: r.operators
  | quant _ _ f => f.operators

theorem filterMap_name_marks (f : Formula) : f.marks.filterMap Mark.name? = f.symbols := by
  induction f with
  | atom a => simp [marks, symbols, List.filterMap_map, Function.comp_def, Mark.name?]
  | not f ih => simpa [marks, symbols, List.filterMap_cons, Mark.name?] using ih
  | binary c l r ihl ihr => simp [marks, symbols, List.filterMap_cons, Mark.name?, ihl, ihr]
  | quant q x f ih => simp [marks, symbols, Mark.name?, ih]
  | term t => rfl

theorem filterMap_operator_marks (f : Formula) :
    f.marks.filterMap Mark.operator? = f.operators := by
  induction f with
  | atom a => simp [marks, operators, List.filterMap_map, Function.comp_def, Mark.operator?]
  | not f ih => simp [marks, operators, Mark.operator?, ih]
  | binary c l r ihl ihr => simp [marks, operators, Mark.operator?, ihl, ihr]
  | quant q x f ih => simpa [marks, operators, List.filterMap_cons, Mark.operator?] using ih
  | term t => rfl

theorem count_not_operators (f : Formula) :
    f.operators.count .not = (f.subformulas.map kind).count .not := by
  induction f with
  | atom a => rfl
  | not f ih => simp [operators, subformulas, kind, ih]
  | binary c l r ihl ihr => simp [operators, subformulas, kind, ihl, ihr]
  | quant q x f ih => simpa [operators, subformulas, kind] using ih
  | term t => cases t <;> rfl

theorem count_binary_operators (c : Connective) (f : Formula) :
    f.operators.count (.binary c) = (f.subformulas.map kind).count (.binary c) := by
  induction f with
  | atom a => rfl
  | not f ih => simpa [operators, subformulas, kind] using ih
  | binary c' l r ihl ihr =>
    simp [operators, subformulas, kind, ihl, ihr, List.count_cons]
    omega
  | quant q x f ih => simpa [operators, subformulas, kind] using ih
  | term t => cases t <;> rfl

end Formula

namespace Reader

theorem marks_bindAll (q : Quantifier) (names : List String) (f : Formula) :
    (bindAll q names f).marks = names.map .name ++ f.marks := by
  induction names with
  | nil => rfl
  | cons x names ih => exact congrArg (Mark.name x :: ·) ih

theorem Identifiers.marksOf_eq {xs : List Token} (hxs : Identifiers xs) :
    marksOf xs = (xs.map (·.text)).map .name := by
  induction xs with
  | nil => rfl
  | cons t xs ih =>
    obtain ⟨ht, hus⟩ := List.forall_mem_cons.mp hxs
    obtain ⟨k, x, o⟩ := t
    obtain rfl : k = .ident := ht
    exact congrArg (Mark.name x :: ·) (ih hus)

theorem Identifiers.count_eq_zero {xs : List Token} (hxs : Identifiers xs) {k : TokenKind}
    (hk : k ≠ .ident) : (xs.map (·.kind)).count k = 0 := by
  refine List.count_eq_zero.mpr fun hmem => ?_
  obtain ⟨t, ht, rfl⟩ := List.mem_map.mp hmem
  exact hk (hxs t ht)

section
variable {xs : List String} {ts : List Token}

theorem ArgumentsEnd.marksOf_eq (h : ArgumentsEnd xs ts) : marksOf ts = xs.map .name := by
  induction h with
  | last x o y n => rfl
  | more x o y n _ ih => exact congrArg (Mark.name _ :: ·) ih

theorem ArgumentsEnd.count_eq (h : ArgumentsEnd xs ts) :
    (ts.map (·.kind)).count .opening = 0 ∧ (ts.map (·.kind)).count .closing = 1 := by
  induction h with
  | last x o y n => exact ⟨rfl, rfl⟩
  | more x o y n _ ih => simpa using ih

theorem AtomEnd.marksOf_eq (h : AtomEnd xs ts) : marksOf ts = xs.map .name := by
  cases h with
  | bare | empty => rfl
  | applied x o h => exact h.marksOf_eq

theorem AtomEnd.count_eq (h : AtomEnd xs ts) :
    (ts.map (·.kind)).count .opening = (ts.map (·.kind)).count .closing := by
  cases h with
  | bare | empty => rfl
  | applied x o h => simp [h.count_eq]

theorem marks_atom (x : String) (xs : List String) :
    (Formula.atom ⟨x, xs.map .var⟩).marks = .name x :: xs.map .name := by
  simp [Formula.marks, Atom.symbols, Term.symbolsOfAll_eq_flatMap, List.flatMap_map, Term.symbols]

theorem marks_of_atomAfter {x : String} {a : Atom} {rest : List Token}
    (h : atomAfter x ts = .ok (a, rest)) : ∃ us, ts = us ++ rest ∧
      (Formula.atom a).marks = .name x :: marksOf us ∧
      (us.map (·.kind)).count .opening = (us.map (·.kind)).count .closing := by
  obtain ⟨xs, us, hts, rfl, hus⟩ := exists_of_atomAfter h
  exact ⟨us, hts, by rw [marks_atom, hus.marksOf_eq], hus.count_eq⟩

theorem marks_of_binderNames {w : String} {names : List String} {rest : List Token}
    (h : binderNames w ts = .ok (names, rest)) : ∃ us, ts = us ++ rest ∧
      marksOf us = names.map .name ∧
      (us.map (·.kind)).count .opening = 0 ∧ (us.map (·.kind)).count .closing = 0 := by
  obtain ⟨vs, rfl, hvs⟩ := exists_of_binderNames h
  refine ⟨vs, rfl, ?_⟩
  cases hvs with
  | undotted x o hxs =>
    have hopening := hxs.count_eq_zero (k := .opening) (by simp)
    have hclosing := hxs.count_eq_zero (k := .closing) (by simp)
    exact ⟨congrArg (Mark.name x :: ·) hxs.marksOf_eq, by simpa using hopening,
      by simpa using hclosing⟩
  | @dotted x o y n xs hxs =>
    have hopening := hxs.count_eq_zero (k := .opening) (by simp)
    have hclosing := hxs.count_eq_zero (k := .closing) (by simp)
    have hdot : marksOf (xs ++ [⟨.dot, y, n⟩]) = marksOf xs := by
      simp [marksOf, List.filterMap_cons, Token.mark?]
    exact ⟨congrArg (Mark.name x :: ·) (hdot.trans hxs.marksOf_eq), by simpa using hopening,
      by simpa using hclosing⟩

end

/-- No negation and no quantifier is pending on top. -/
def NoPrefix : List Pending → Prop
  | .not :: _ | .binder .. :: _ => False
  | _ => True

/-- In `d` open groups, what is pending, with the operands below the next one, is written as `ms`. -/
inductive Awaits : List Pending → List Formula → Nat → List Mark → Prop
  | nil : Awaits [] [] 0 []
  | not {ps : List Pending} {fs : List Formula} {d : Nat} {ms : List Mark} (h : Awaits ps fs d ms) :
    Awaits (.not :: ps) fs d (ms ++ [.not])
  | binder (q : Quantifier) (names : List String) {ps : List Pending} {fs : List Formula} {d : Nat}
    {ms : List Mark} (h : Awaits ps fs d ms) :
    Awaits (.binder q names :: ps) fs d (ms ++ names.map .name)
  | opening {ps : List Pending} {fs : List Formula} {d : Nat} {ms : List Mark}
    (h : Awaits ps fs d ms) : Awaits (.opening :: ps) fs (d + 1) ms
  | binary (c : Connective) (l : Formula) {ps : List Pending} {fs : List Formula} {d : Nat}
    {ms : List Mark} (h : Awaits ps fs d ms) (hps : NoPrefix ps) :
    Awaits (.binary c :: ps) (l :: fs) d (ms ++ l.marks ++ [.binary c])

/-- In `d` open groups, what is pending, with all operands, is written as `ms`. -/
inductive Holds : Stacks → Nat → List Mark → Prop
  | intro (f : Formula) {ps : List Pending} {fs : List Formula} {d : Nat} {ms : List Mark}
    (h : Awaits ps fs d ms) : Holds ⟨ps, f :: fs⟩ d (ms ++ f.marks)

section
variable {ps : List Pending} {fs : List Formula} {d : Nat} {ms : List Mark} {s s' : Stacks}
  {f : Formula} {waits : Connective → Bool} {c : Connective}

theorem Holds.closePrefixes (h : Holds s d ms)
    (hclose : Stacks.closePrefixes s.pending s.operands = some s') :
    Holds s' d ms ∧ NoPrefix s'.pending := by
  -- the induction is on what is pending below the operand, which grows with each prefix applied to it
  obtain @⟨f, ps, fs, d, ms, h⟩ := h
  induction h generalizing f with
  | nil => exact Option.some.inj hclose ▸ ⟨.intro f .nil, trivial⟩
  | not h ih =>
    have := ih (.not f) hclose
    rwa [List.append_assoc]
  | binder q names h ih =>
    have := ih (bindAll q names f) hclose
    rwa [marks_bindAll, ← List.append_assoc] at this
  | opening h => exact Option.some.inj hclose ▸ ⟨.intro f (.opening h), trivial⟩
  | binary c l h hps => exact Option.some.inj hclose ▸ ⟨.intro f (.binary c l h hps), trivial⟩

theorem Holds.reduce (h : Holds s d ms) (hs : NoPrefix s.pending)
    (hreduce : Stacks.reduce waits s.pending s.operands = some s') :
    Holds s' d ms ∧ NoPrefix s'.pending := by
  obtain @⟨f, ps, fs, d, ms, h⟩ := h
  induction h generalizing f with
  | nil => exact Option.some.inj hreduce ▸ ⟨.intro f .nil, hs⟩
  | not | binder => exact hs.elim
  | opening h => exact Option.some.inj hreduce ▸ ⟨.intro f (.opening h), hs⟩
  | binary c l h hps ih =>
    simp only [Stacks.reduce] at hreduce
    split at hreduce
    · exact Option.some.inj hreduce ▸ ⟨.intro f (.binary c l h hps), hs⟩
    · have := ih (.binary c l f) hps hreduce
      simpa [Formula.marks] using this

theorem waits_of_reduce (h : Stacks.reduce waits ps fs = some s') {qs : List Pending}
    (hs' : s'.pending = .binary c :: qs) : waits c := by
  fun_induction Stacks.reduce waits ps fs with
  | case1 c' ps fs hwaits =>
    obtain rfl := Option.some.inj h
    obtain ⟨hc, -⟩ := List.cons.inj hs'
    exact Pending.binary.inj hc ▸ hwaits
  | case2 c' ps hwaits r l fs ih => exact ih h
  | case3 => cases h
  | case4 ps fs hne =>
    obtain rfl := Option.some.inj h
    exact absurd hs' (hne c qs)

theorem Holds.reduceFor (h : Holds s d ms) (hs : NoPrefix s.pending)
    (hreduce : s.reduceFor c = some s') : Awaits s'.pending s'.operands d (ms ++ [.binary c]) := by
  obtain ⟨t, ht, rfl⟩ := Option.map_eq_some_iff.mp hreduce
  obtain ⟨⟨f, ht⟩, hprefix⟩ := h.reduce hs ht
  exact .binary c f ht hprefix

theorem Holds.closeGroup (h : Holds s (d + 1) ms) (hs : NoPrefix s.pending)
    (hclose : s.closeGroup = some s') : Holds s' d ms := by
  unfold Stacks.closeGroup at hclose
  split at hclose
  · rename_i hreduce
    obtain ⟨⟨f, hopening⟩, -⟩ := h.reduce hs hreduce
    cases hopening with
    | opening h => exact Option.some.inj hclose ▸ .intro f h
  · cases hclose

theorem Holds.marks_eq (h : Holds s 0 ms) (hs : NoPrefix s.pending)
    (hreduce : s.reduceGroup = some ⟨ps, f :: fs⟩) : f.marks = ms := by
  obtain ⟨⟨f, hend⟩, hprefix⟩ := h.reduce hs hreduce
  -- no group is open and no connective is left, so nothing is pending below the operand
  cases hend with
  | nil => rfl
  | not | binder => exact hprefix.elim
  | binary => exact absurd (waits_of_reduce hreduce rfl) (by simp)

end

/-- The tokens that are read add their names and connectives, and close `d` groups besides those they
open. -/
def Adds (d : Nat) (ms : List Mark) (ts : List Token) (x : Except Fault (Formula × List Token)) :
    Prop :=
  ∀ f rest, x = .ok (f, rest) → ∃ us, ts = us ++ rest ∧ f.marks = ms ++ marksOf us ∧
    d + (us.map (·.kind)).count .opening = (us.map (·.kind)).count .closing

theorem Adds.error {d : Nat} {ms : List Mark} {ts : List Token} (e : Fault) :
    Adds d ms ts (.error e) := by
  intro f rest h
  cases h

theorem Adds.behind (us : List Token) {d d' : Nat} {ms ms' : List Mark} {ts : List Token}
    {x : Except Fault (Formula × List Token)} (h : Adds d' ms' ts x) (hms : ms' = ms ++ marksOf us)
    (hd : d + (us.map (·.kind)).count .opening = d' + (us.map (·.kind)).count .closing) :
    Adds d ms (us ++ ts) x := by
  intro f rest hx
  obtain ⟨vs, rfl, hmarks, hcount⟩ := h f rest hx
  refine ⟨us ++ vs, (List.append_assoc _ _ _).symm, ?_, ?_⟩
  · rw [hmarks, hms, List.append_assoc, ← List.filterMap_append]
  · simp only [List.map_append, List.count_append]
    omega

/-- Reading on at the tokens adds their names and connectives to what the stacks hold. -/
structure ReadsInOrder (ts : List Token) : Prop where
  operand : ∀ {d s ms}, Awaits s.pending s.operands d ms → Adds d ms ts (readOperand d s ts)
  operator : ∀ {d s ms}, Holds s d ms → Adds d ms ts (readOperator d s ts)

section
variable {ts : List Token} {d : Nat} {s : Stacks} {ms : List Mark}
  (ih : ∀ us, us.length < ts.length → ReadsInOrder us)
include ih

theorem adds_readOperand (h : Awaits s.pending s.operands d ms) :
    Adds d ms ts (readOperand d s ts) := by
  unfold readOperand
  split
  · rename_i x o rest
    have hread := (ih rest (by simp)).operand (s := s.push .not) h.not
    exact hread.behind [⟨.not, x, o⟩] rfl rfl
  · rename_i q w m rest
    split
    · rename_i names rest' hnames
      have hlt := Nat.lt_succ_of_lt (binderNames_length hnames)
      obtain ⟨us, rfl, hmarks, hopening, hclosing⟩ := marks_of_binderNames hnames
      have hread := (ih rest' hlt).operand (s := s.push (.binder q names)) (h.binder q names)
      refine hread.behind (⟨.quant q, w, m⟩ :: us) ?_ ?_
      · exact congrArg (ms ++ ·) hmarks.symm
      · simp [hopening, hclosing]
    · exact .error _
  · rename_i x o rest
    have hread := (ih rest (by simp)).operand (s := s.push .opening) h.opening
    exact hread.behind [⟨.opening, x, o⟩] (List.append_nil ms).symm rfl
  · rename_i predicate o rest
    split
    · rename_i a rest' hatom
      have hlt := Nat.lt_succ_of_le (atomAfter_length hatom)
      obtain ⟨us, rfl, hmarks, hcount⟩ := marks_of_atomAfter hatom
      have hread := (ih rest' hlt).operator (s := s.pushOperand (.atom a)) (.intro (.atom a) h)
      refine hread.behind (⟨.ident, predicate, o⟩ :: us) ?_ ?_
      · exact congrArg (ms ++ ·) hmarks
      · simpa using hcount
    · exact .error _
  · exact .error _

theorem adds_readOperator (h : Holds s d ms) : Adds d ms ts (readOperator d s ts) := by
  unfold readOperator
  split
  · exact .error _
  rename_i s' hclose
  obtain ⟨hholds, hprefix⟩ := h.closePrefixes hclose
  split
  · rename_i c x o rest
    split
    · rename_i hreduce
      have hread := (ih rest (by simp)).operand (hholds.reduceFor hprefix hreduce)
      exact hread.behind [⟨.binary c, x, o⟩] rfl rfl
    · exact .error _
  · rename_i x o rest
    split
    · rename_i hgroup
      have hread := (ih rest (by simp)).operator (hholds.closeGroup hprefix hgroup)
      exact hread.behind [⟨.closing, x, o⟩] (List.append_nil ms).symm rfl
    · exact .error _
  · exact .error _
  · split
    · rename_i hreduce
      intro g rest heq
      obtain ⟨rfl, rfl⟩ := Prod.mk.inj (Except.ok.inj heq)
      exact ⟨[], rfl, by simpa using hholds.marks_eq hprefix hreduce, rfl⟩
    · exact .error _

end

theorem readsInOrder (ts : List Token) : ReadsInOrder ts := by
  have ih : ∀ us, us.length < ts.length → ReadsInOrder us := fun us _ => readsInOrder us
  exact ⟨adds_readOperand ih, adds_readOperator ih⟩
termination_by ts.length

theorem marks_of_readAll {ts : List Token} {f : Formula} (h : readAll ts = .ok f) :
    f.marks = marksOf ts ∧
      (ts.map (·.kind)).count .opening = (ts.map (·.kind)).count .closing := by
  unfold readAll at h
  split at h
  · rename_i hread
    obtain rfl := Except.ok.inj h
    obtain ⟨us, rfl, hmarks, hcount⟩ := (readsInOrder ts).operand .nil _ _ hread
    rw [List.append_nil]
    exact ⟨hmarks, (Nat.zero_add _).symm.trans hcount⟩
  · cases h
  · cases h

/-- A formula that takes up all tokens has their names, negations and connectives, all of them, in
their order and none twice, and the parentheses among the tokens are as many opening as closing. -/
theorem reading_keeps_names_and_connectives (ts : List Token) (f : Formula)
    (h : readAll ts = .ok f) :
    f.symbols = (ts.filter (·.kind = .ident)).map (·.text) ∧
      (f.subformulas.map (·.kind)).count .not = (ts.map (·.kind)).count .not ∧
      (∀ c, (f.subformulas.map (·.kind)).count (.binary c) = (ts.map (·.kind)).count (.binary c)) ∧
      f.operators = (ts.map (·.kind)).filter (·.isOperator) ∧
      (ts.map (·.kind)).count .opening = (ts.map (·.kind)).count .closing := by
  obtain ⟨hmarks, hcount⟩ := marks_of_readAll h
  have hoperators : f.operators = (ts.map (·.kind)).filter (·.isOperator) := by
    rw [← f.filterMap_operator_marks, hmarks, filterMap_operator_marksOf]
  refine ⟨?_, ?_, fun c => ?_, hoperators, hcount⟩
  · rw [← f.filterMap_name_marks, hmarks, filterMap_name_marksOf]
  · rw [← f.count_not_operators, hoperators, List.count_filter rfl]
  · rw [← f.count_binary_operators, hoperators, List.count_filter rfl]

/-- Without a dot: `y` is a variable, `P` the predicate of the body, and the implication is applied
last. -/
theorem reading_keeps_names_and_connectives_of_undotted :
    let ts : List Token := [⟨.quant .all, "∀", 0⟩, ⟨.ident, "x", 1⟩, ⟨.ident, "y", 3⟩,
      ⟨.ident, "P", 5⟩, ⟨.binary .implies, "→", 7⟩, ⟨.not, "¬", 9⟩, ⟨.opening, "(", 10⟩,
      ⟨.ident, "Q", 11⟩, ⟨.binary .and, "∧", 13⟩, ⟨.ident, "R", 15⟩, ⟨.opening, "(", 16⟩,
      ⟨.ident, "a", 17⟩, ⟨.closing, ")", 18⟩, ⟨.closing, ")", 19⟩]
    let f : Formula := .implies (.all "x" (.all "y" (.atom ⟨"P", []⟩)))
      (.not (.and (.atom ⟨"Q", []⟩) (.atom ⟨"R", [.var "a"]⟩)))
    readAll ts = .ok f ∧ f.symbols = ["x", "y", "P", "Q", "R", "a"] ∧
      f.operators = [.binary .implies, .not, .binary .and] := by
  intro ts f
  have h : readAll ts = .ok f := by cbv
  obtain ⟨hnames, -, -, hoperators, -⟩ := reading_keeps_names_and_connectives ts f h
  exact ⟨h, hnames.trans (by decide), hoperators.trans (by decide)⟩

end Reader

end Clausification
